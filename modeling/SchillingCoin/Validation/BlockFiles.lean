import Mathlib.Algebra.Group.Nat.Defs
import SchillingCoin.Lib.Extents
import SchillingCoin.Lib.Run
import Mathlib.Data.List.GetD

/-!
Where blocks and their undo data go on disk, after `FindBlockPos` and `FindUndoPos` in `main.cpp` and `CBlockFileInfo` in
`chain.h`. Whether `CheckDiskSpace` would find enough space is part of each call.
-/

namespace SchillingCoin

def MAX_BLOCKFILE_SIZE : Nat := 0x8000000

def BLOCKFILE_CHUNK_SIZE : Nat := 0x1000000

def UNDOFILE_CHUNK_SIZE : Nat := 0x100000

inductive FileKind where
  | block
  | undo
  deriving DecidableEq, Repr

structure CBlockFileInfo where
  nBlocks : Nat := 0
  nSize : Nat := 0
  nUndoSize : Nat := 0
  nHeightFirst : Nat := 0
  nHeightLast : Nat := 0
  nTimeFirst : Nat := 0
  nTimeLast : Nat := 0
  deriving DecidableEq, Repr

namespace CBlockFileInfo

/-- Updates the statistics, without the size. -/
def addBlock (info : CBlockFileInfo) (nHeightIn nTimeIn : Nat) : CBlockFileInfo :=
  { info with
    nHeightFirst := if info.nBlocks = 0 ∨ info.nHeightFirst > nHeightIn then nHeightIn else info.nHeightFirst
    nTimeFirst := if info.nBlocks = 0 ∨ info.nTimeFirst > nTimeIn then nTimeIn else info.nTimeFirst
    nBlocks := (info.nBlocks + 1) % 2 ^ 32
    nHeightLast := if nHeightIn > info.nHeightLast then nHeightIn else info.nHeightLast
    nTimeLast := if nTimeIn > info.nTimeLast then nTimeIn else info.nTimeLast }

def used (info : CBlockFileInfo) : FileKind → Nat
  | .block => info.nSize
  | .undo => info.nUndoSize

end CBlockFileInfo

structure CDiskBlockPos where
  nFile : Nat := 0
  nPos : Nat := 0
  deriving DecidableEq, Repr

structure BlockFiles where
  vinfoBlockFile : List CBlockFileInfo := []
  nLastBlockFile : Nat := 0
  setDirtyFileInfo : List Nat := []
  deriving DecidableEq, Repr

structure FoundPos where
  pos : CDiskBlockPos
  ok : Bool
  deriving DecidableEq, Repr

namespace BlockFiles

variable (s : BlockFiles) (nFile : Nat) (vinfo : List CBlockFileInfo) (nAddSize : Nat)
  (diskSpace : Bool)

def info : CBlockFileInfo := s.vinfoBlockFile.getD nFile {}

def resize (n : Nat) : List CBlockFileInfo := vinfo ++ List.replicate (n - vinfo.length) ({} : CBlockFileInfo)

def withFile (nFile : Nat) : List CBlockFileInfo :=
  if vinfo.length ≤ nFile then resize vinfo (nFile + 1) else vinfo

/-- The loop that leaves files without enough room. `none` says that it has not ended after so many tests of its condition. -/
def leaveFiles (nAddSize : Nat) : Nat → List CBlockFileInfo → Nat → Option (List CBlockFileInfo × Nat)
  | 0, _, _ => none
  | rounds + 1, vinfo, nFile =>
    if ((vinfo.getD nFile {}).nSize + nAddSize) % 2 ^ 32 ≥ MAX_BLOCKFILE_SIZE then
      leaveFiles nAddSize rounds (withFile vinfo (nFile + 1)) (nFile + 1)
    else some (vinfo, nFile)

def chunks (nPos chunkSize : Nat) : Nat := (nPos + chunkSize - 1) % 2 ^ 32 / chunkSize

/-- The rest of `FindBlockPos`, once the file is known. -/
def addToFile (pos : CDiskBlockPos) (nAddSize nHeight nTime : Nat) (fKnown diskSpace : Bool) : FoundPos × BlockFiles :=
  let old := vinfo.getD pos.nFile {}
  let nSize := if fKnown then max ((pos.nPos + nAddSize) % 2 ^ 32) old.nSize else (old.nSize + nAddSize) % 2 ^ 32
  let s := { s with vinfoBlockFile := vinfo.set pos.nFile { old.addBlock nHeight nTime with nSize }, nLastBlockFile := pos.nFile }
  if !fKnown && decide (chunks nSize BLOCKFILE_CHUNK_SIZE > chunks pos.nPos BLOCKFILE_CHUNK_SIZE) && !diskSpace then ({ pos, ok := false }, s)
  else ({ pos, ok := true }, { s with setDirtyFileInfo := s.setDirtyFileInfo.insert pos.nFile })

def findBlockPos (rounds : Nat) (s : BlockFiles) (pos : CDiskBlockPos) (nAddSize nHeight nTime : Nat) (fKnown diskSpace : Bool) :
    Option (FoundPos × BlockFiles) :=
  let nFile := if fKnown then pos.nFile else s.nLastBlockFile
  let vinfo := withFile s.vinfoBlockFile nFile
  if fKnown then some (s.addToFile vinfo pos nAddSize nHeight nTime fKnown diskSpace)
  else
    match leaveFiles nAddSize rounds vinfo nFile with
    | none => none
    | some (vinfo, nFile) =>
      some (s.addToFile vinfo { nFile, nPos := (vinfo.getD nFile {}).nSize } nAddSize nHeight nTime fKnown diskSpace)

/-- `none` is an access outside of `vinfoBlockFile`. -/
def findUndoPos : Option (FoundPos × BlockFiles) :=
  match s.vinfoBlockFile[nFile]? with
  | none => none
  | some old =>
    let pos : CDiskBlockPos := { nFile, nPos := old.nUndoSize }
    let nNewSize := (old.nUndoSize + nAddSize) % 2 ^ 32
    let s := { s with
      vinfoBlockFile := s.vinfoBlockFile.set nFile { old with nUndoSize := nNewSize }
      setDirtyFileInfo := s.setDirtyFileInfo.insert nFile }
    some ({ pos, ok := !(decide (chunks nNewSize UNDOFILE_CHUNK_SIZE > chunks pos.nPos UNDOFILE_CHUNK_SIZE) && !diskSpace) }, s)

end BlockFiles

inductive SpaceCall where
  | findBlockPos (nAddSize nHeight nTime : Nat) (diskSpace : Bool)
  | findUndoPos (nFile nAddSize : Nat) (diskSpace : Bool)
  deriving DecidableEq, Repr

namespace SpaceCall

def kind : SpaceCall → FileKind
  | findBlockPos .. => .block
  | findUndoPos .. => .undo

def nAddSize : SpaceCall → Nat
  | findBlockPos nAddSize .. => nAddSize
  | findUndoPos _ nAddSize _ => nAddSize

def run (rounds : Nat) (s : BlockFiles) : SpaceCall → Option (FoundPos × BlockFiles)
  | findBlockPos nAddSize nHeight nTime diskSpace => s.findBlockPos rounds {} nAddSize nHeight nTime false diskSpace
  | findUndoPos nFile nAddSize diskSpace => s.findUndoPos nFile nAddSize diskSpace

def Allowed (s : BlockFiles) : SpaceCall → Prop
  | findBlockPos nAddSize .. => nAddSize < MAX_BLOCKFILE_SIZE
  | findUndoPos nFile nAddSize _ => nFile < s.vinfoBlockFile.length ∧ (s.info nFile).nUndoSize + nAddSize < 2 ^ 32

end SpaceCall

abbrev DiskExtent := Extent (FileKind × Nat)

structure HandedOut where
  files : BlockFiles
  given : List DiskExtent := []

namespace HandedOut

def extent (call : SpaceCall) (pos : CDiskBlockPos) : DiskExtent := ⟨(call.kind, pos.nFile), pos.nPos, pos.nPos + call.nAddSize⟩

def next (rounds : Nat) (h : HandedOut) (call : SpaceCall) : HandedOut :=
  match call.run rounds h.files with
  | none => h
  | some (found, files) => { files, given := h.given ++ [extent call found.pos] }

end HandedOut

namespace BlockFiles

def used (s : BlockFiles) (file : FileKind × Nat) : Nat := (s.info file.2).used file.1

structure Ordered (s : BlockFiles) : Prop where
  last : s.vinfoBlockFile = [] ∨ s.vinfoBlockFile.length = s.nLastBlockFile + 1
  small : ∀ nFile, (s.info nFile).nSize < MAX_BLOCKFILE_SIZE

variable (vinfo : List CBlockFileInfo)

theorem getD_resize (n nFile : Nat) : (resize vinfo n).getD nFile {} = vinfo.getD nFile {} := by
  rw [resize]
  by_cases inside : nFile < vinfo.length
  · rw [List.getD_append _ _ _ _ inside]
  · rw [List.getD_append_right _ _ _ _ (by omega), List.getD_eq_default _ _ (by omega : vinfo.length ≤ nFile)]
    by_cases room : nFile - vinfo.length < n - vinfo.length
    · rw [List.getD_eq_getElem _ _ (by rw [List.length_replicate]; exact room), List.getElem_replicate]
    · rw [List.getD_eq_default _ _ (by rw [List.length_replicate]; omega)]

theorem getD_withFile (n nFile : Nat) : (withFile vinfo n).getD nFile {} = vinfo.getD nFile {} := by
  unfold withFile
  split
  · exact getD_resize vinfo _ nFile
  · rfl

variable {nFile nAddSize rounds : Nat} {s : BlockFiles}

theorem length_withFile_of_le {vinfo : List CBlockFileInfo} (next : vinfo.length ≤ nFile) :
    (withFile vinfo nFile).length = nFile + 1 := by
  rw [withFile, if_pos next, resize, List.length_append, List.length_replicate]
  omega

theorem getD_set (inside : nFile < vinfo.length) (new : CBlockFileInfo) (n : Nat) :
    (vinfo.set nFile new).getD n {} = if n = nFile then new else vinfo.getD n {} := by
  rw [List.getD_eq_getElem?_getD, List.getElem?_set]
  by_cases same : nFile = n
  · rw [if_pos same, if_pos (same ▸ inside), if_pos same.symm]
    rfl
  · rw [if_neg same, if_neg (Ne.symm same), List.getD_eq_getElem?_getD]

theorem leaveFiles_ends {vinfo : List CBlockFileInfo} (last : vinfo.length = nFile + 1)
    (small : ∀ n, (vinfo.getD n {}).nSize < MAX_BLOCKFILE_SIZE) (fits : nAddSize < MAX_BLOCKFILE_SIZE)
    (enough : 2 ≤ rounds) :
    ∃ vinfo' nFile', leaveFiles nAddSize rounds vinfo nFile = some (vinfo', nFile') ∧ vinfo'.length = nFile' + 1 ∧
      (∀ n, vinfo'.getD n {} = vinfo.getD n {}) ∧ (vinfo'.getD nFile' {}).nSize + nAddSize < MAX_BLOCKFILE_SIZE := by
  obtain ⟨rounds, rfl⟩ : ∃ r, rounds = r + 2 := ⟨rounds - 2, by omega⟩
  have bound : MAX_BLOCKFILE_SIZE = 2 ^ 27 := rfl
  have exact_ : ∀ n, ((vinfo.getD n {}).nSize + nAddSize) % 2 ^ 32 = (vinfo.getD n {}).nSize + nAddSize := by
    intro n
    apply Nat.mod_eq_of_lt
    have := small n
    omega
  rw [leaveFiles, exact_]
  split
  · have fresh : (withFile vinfo (nFile + 1)).getD (nFile + 1) {} = {} := by
      rw [getD_withFile, List.getD_eq_default _ _ (by omega)]
    have empty : ({} : CBlockFileInfo).nSize + nAddSize = nAddSize := Nat.zero_add _
    rw [leaveFiles, fresh, empty, Nat.mod_eq_of_lt (by omega), if_neg (by omega)]
    refine ⟨_, _, rfl, length_withFile_of_le (by omega), getD_withFile vinfo _, ?_⟩
    rw [fresh, empty]
    exact fits
  · next room => exact ⟨_, _, rfl, last, fun _ => rfl, by omega⟩

/-- What a call leaves: the files in order, what it handed out counted on top of what was used in its file, and no other file touched. -/
structure Grants (s t : BlockFiles) (call : SpaceCall) (pos : CDiskBlockPos) : Prop where
  ordered : t.Ordered
  start : pos.nPos = s.used (call.kind, pos.nFile)
  used : ∀ file, t.used file = if file = (call.kind, pos.nFile) then pos.nPos + call.nAddSize else s.used file
  inFile : call.kind = .block → pos.nPos + call.nAddSize < MAX_BLOCKFILE_SIZE

theorem Grants.of_info {new : CBlockFileInfo} (ordered : t.Ordered)
    (infos : ∀ n, t.info n = if n = pos.nFile then new else s.info n) (start : pos.nPos = (s.info pos.nFile).used call.kind)
    (grown : new.used call.kind = pos.nPos + call.nAddSize)
    (other : ∀ kind, kind ≠ call.kind → new.used kind = (s.info pos.nFile).used kind)
    (inFile : call.kind = .block → pos.nPos + call.nAddSize < MAX_BLOCKFILE_SIZE) :
    Grants s t call pos where
  ordered := ordered
  start := start
  used := by
    intro file
    obtain ⟨kind, n⟩ := file
    show (t.info n).used kind = _
    rw [infos]
    by_cases here : n = pos.nFile
    · rw [if_pos here]
      by_cases same : kind = call.kind
      · rw [if_pos (by rw [here, same]), same, grown]
      · rw [if_neg fun h => same (Prod.mk.inj h).1, other kind same, here]
        rfl
    · rw [if_neg here, if_neg fun h => here (Prod.mk.inj h).2]
      rfl
  inFile := inFile

theorem findBlockPos_grants (ordered : s.Ordered) (enough : 2 ≤ rounds)
    (fits : nAddSize < MAX_BLOCKFILE_SIZE) (nHeight nTime : Nat) (diskSpace : Bool) :
    ∃ found t, (SpaceCall.findBlockPos nAddSize nHeight nTime diskSpace).run rounds s = some (found, t) ∧
      Grants s t (.findBlockPos nAddSize nHeight nTime diskSpace) found.pos := by
  have room : (withFile s.vinfoBlockFile s.nLastBlockFile).length = s.nLastBlockFile + 1 := by
    rcases ordered.last with none | last
    · exact length_withFile_of_le (by rw [none]; exact Nat.zero_le _)
    · rw [withFile, if_neg (by omega), last]
  have small : ∀ n, ((withFile s.vinfoBlockFile s.nLastBlockFile).getD n {}).nSize < MAX_BLOCKFILE_SIZE := by
    intro n
    rw [getD_withFile]
    exact ordered.small n
  obtain ⟨vinfo, nFile, ended, length, same, below⟩ := leaveFiles_ends room small fits enough
  have sameInfo : ∀ n, vinfo.getD n {} = s.info n := fun n => (same n).trans (getD_withFile _ _ n)
  have bound : MAX_BLOCKFILE_SIZE = 2 ^ 27 := rfl
  rw [sameInfo] at below
  have sum : ((s.info nFile).nSize + nAddSize) % 2 ^ 32 = (s.info nFile).nSize + nAddSize := Nat.mod_eq_of_lt (by omega)
  let new : CBlockFileInfo := { (s.info nFile).addBlock nHeight nTime with nSize := (s.info nFile).nSize + nAddSize }
  -- The files do not depend on the answer of `CheckDiskSpace`, up to what is to be written.
  have after : ∀ dirty : List Nat, Grants s { vinfoBlockFile := vinfo.set nFile new, nLastBlockFile := nFile, setDirtyFileInfo := dirty }
      (.findBlockPos nAddSize nHeight nTime diskSpace) { nFile, nPos := (s.info nFile).nSize } := by
    intro dirty
    have infos : ∀ n, (vinfo.set nFile new).getD n {} = if n = nFile then new else s.info n := by
      intro n
      rw [getD_set _ (by omega), sameInfo n]
    have ordered' : Ordered { vinfoBlockFile := vinfo.set nFile new, nLastBlockFile := nFile, setDirtyFileInfo := dirty } := by
      refine ⟨Or.inr ((List.length_set).trans length), fun n => ?_⟩
      show ((vinfo.set nFile new).getD n {}).nSize < _
      rw [infos]
      split
      · exact below
      · exact ordered.small n
    refine Grants.of_info ordered' infos rfl rfl ?_ fun _ => below
    intro kind other
    cases kind with
    | block => exact absurd rfl other
    | undo => rfl
  show ∃ found t, s.findBlockPos rounds {} nAddSize nHeight nTime false diskSpace = some (found, t) ∧ _
  have called : s.findBlockPos rounds {} nAddSize nHeight nTime false diskSpace =
      some (s.addToFile vinfo { nFile, nPos := (s.info nFile).nSize } nAddSize nHeight nTime false diskSpace) := by
    simp only [findBlockPos, Bool.false_eq_true, if_false, ended, sameInfo]
  rw [called, addToFile]
  simp only [Bool.false_eq_true, if_false, sameInfo, sum]
  split
  · exact ⟨_, _, rfl, after s.setDirtyFileInfo⟩
  · exact ⟨_, _, rfl, after (s.setDirtyFileInfo.insert nFile)⟩

theorem findUndoPos_grants (ordered : s.Ordered) (here : nFile < s.vinfoBlockFile.length)
    (fits : (s.info nFile).nUndoSize + nAddSize < 2 ^ 32) (rounds : Nat) (diskSpace : Bool) :
    ∃ found t, (SpaceCall.findUndoPos nFile nAddSize diskSpace).run rounds s = some (found, t) ∧
      Grants s t (.findUndoPos nFile nAddSize diskSpace) found.pos := by
  have old : s.vinfoBlockFile[nFile]? = some (s.info nFile) := by
    rw [List.getElem?_eq_getElem here, info, List.getD_eq_getElem _ _ here]
  have sum : ((s.info nFile).nUndoSize + nAddSize) % 2 ^ 32 = (s.info nFile).nUndoSize + nAddSize := Nat.mod_eq_of_lt fits
  show ∃ found t, s.findUndoPos nFile nAddSize diskSpace = some (found, t) ∧ _
  simp only [findUndoPos, old, sum]
  refine ⟨_, _, rfl, ?_⟩
  have infos := getD_set s.vinfoBlockFile here { s.info nFile with nUndoSize := (s.info nFile).nUndoSize + nAddSize }
  refine Grants.of_info ⟨?_, fun n => ?_⟩ infos rfl rfl ?_ nofun
  · rcases ordered.last with none | last
    · rw [none] at here
      exact absurd here (Nat.not_lt_zero _)
    · exact Or.inr ((List.length_set).trans last)
  · show ((s.vinfoBlockFile.set nFile _).getD n {}).nSize < _
    rw [infos]
    split
    · exact ordered.small nFile
    · exact ordered.small n
  · intro kind other
    cases kind with
    | block => rfl
    | undo => exact absurd rfl other

theorem allowed_grants (ordered : s.Ordered) (enough : 2 ≤ rounds) (allowed : call.Allowed s) :
    ∃ found t, call.run rounds s = some (found, t) ∧ Grants s t call found.pos := by
  cases call with
  | findBlockPos nAddSize nHeight nTime diskSpace => exact findBlockPos_grants ordered enough allowed nHeight nTime diskSpace
  | findUndoPos nFile nAddSize diskSpace => exact findUndoPos_grants ordered allowed.1 allowed.2 rounds diskSpace

end BlockFiles

namespace HandedOut

structure Inv (h : HandedOut) : Prop where
  ordered : h.files.Ordered
  tight : Extent.Tight h.files.used h.given
  inFile : ∀ e ∈ h.given, e.file.1 = .block → e.stop < MAX_BLOCKFILE_SIZE

theorem next_inv (enough : 2 ≤ rounds) (inv : h.Inv) (allowed : call.Allowed h.files) : (next rounds h call).Inv := by
  obtain ⟨found, t, done, grants⟩ := BlockFiles.allowed_grants inv.ordered enough allowed
  have after : next rounds h call = { files := t, given := h.given ++ [extent call found.pos] } := by rw [next, done]
  rw [after]
  refine ⟨grants.ordered, ?_, ?_⟩
  · have taken : extent call found.pos = ⟨(call.kind, found.pos.nFile), h.files.used (call.kind, found.pos.nFile),
        h.files.used (call.kind, found.pos.nFile) + call.nAddSize⟩ := by rw [extent, ← grants.start]
    rw [taken]
    apply inv.tight.extend
    · intro file
      rw [grants.used]
      split
      · next same => rw [same, grants.start]; omega
      · exact le_refl _
    · rw [grants.used, if_pos rfl, grants.start]
  · intro e member isBlock
    rcases List.mem_append.mp member with old | new
    · exact inv.inFile e old isBlock
    · obtain rfl := List.mem_singleton.mp new
      exact grants.inFile isBlock

/-- In every run from no files, whatever the last file number and the free space are: every allowed call ends, within two tests of
its loop, the ranges of one file are apart, and those of block files end below the limit. -/
theorem space_handed_out_once {rounds nLastBlockFile : Nat} (enough : 2 ≤ rounds) {h : HandedOut}
    (reached : Run.Reached (next rounds) (fun h call => call.Allowed h.files) { files := { nLastBlockFile } } h) :
    (∀ call : SpaceCall, call.Allowed h.files → (call.run rounds h.files).isSome = true) ∧ h.given.Pairwise Extent.Apart ∧
      ∀ e ∈ h.given, e.file.1 = .block → e.stop < MAX_BLOCKFILE_SIZE := by
  have start : Inv { files := { nLastBlockFile } } := by
    refine ⟨⟨Or.inl rfl, fun nFile => ?_⟩, Extent.Tight.nil _, nofun⟩
    show (([] : List CBlockFileInfo).getD nFile {}).nSize < _
    rw [List.getD_nil]
    decide
  have inv := reached.invariant Inv start fun _ _ inv allowed => next_inv enough inv allowed
  refine ⟨?_, inv.tight.apart, inv.inFile⟩
  intro call allowed
  obtain ⟨found, t, done, _⟩ := BlockFiles.allowed_grants inv.ordered enough allowed
  rw [done]
  rfl

theorem two_blocks_handed_out_once :
    (next 2 (next 2 { files := {} } (.findBlockPos 100 0 0 true)) (.findBlockPos 0x7ffffff 1 0 false)).given.Pairwise Extent.Apart :=
  (space_handed_out_once (le_refl 2) (.step _ (.step _ .start (by unfold SpaceCall.Allowed; decide)) (by unfold SpaceCall.Allowed; decide))).2.1

end HandedOut

end SchillingCoin
