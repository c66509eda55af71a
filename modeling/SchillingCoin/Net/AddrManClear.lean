import SchillingCoin.Net.AddrManFile
import SchillingCoin.Net.AddrManRuns

/-!
What `Clear` of the address manager leaves.
-/

namespace SchillingCoin.Net

open Codec DataStream Wire

namespace CAddrMan

variable (k : AddrBuckets)

/-- Nothing of the manager remains after `Clear`, and a file is read into it as into a new one. -/
structure ClearsAll (s : CAddrMan) : Prop where
  checks : ∀ nKey, nKey ≠ 0 → (s.clear nKey).check k = .ok ()
  finds : ∀ nKey addr, (s.clear nKey).find addr = none
  serializes : ∀ nKey nVersion, ∃ writes, (s.clear nKey).serialize nVersion = some writes
  loads : ∀ (nVersion : Int) (other : CAddrMan) (writes : Writes), other.serialize nVersion = some writes → ∀ randHash nKey,
    s.unserialize k randHash writes.bytes = ({ nKey } : CAddrMan).unserialize k randHash writes.bytes

variable {k} {s : CAddrMan}

theorem clear_of_empty (noInfo : s.mapInfo = ∅) (noAddr : s.mapAddr = ∅) (nKey : uint256) : s.clear nKey = { nKey } := by
  rw [clear, noInfo, noAddr]

theorem inOrder_empty (noInfo : s.mapInfo = ∅) : s.inOrder = [] := by
  rw [inOrder, noInfo]
  rfl

theorem unreferenced_empty (noInfo : s.mapInfo = ∅) : s.unreferenced = [] := by
  rw [unreferenced, inOrder_empty noInfo]
  rfl

theorem serializeBucket_none (ids : StdMap Nat Nat) : serializeBucket ids [] = [intBytes 4 0] := rfl

theorem serialize_new (nVersion : Int) (nKey : uint256) :
    ∃ writes, ({ nKey } : CAddrMan).serialize nVersion = some writes ∧
      writes.bytes = ({ nKey } : CAddrMan).headerBytes ++ (List.range ADDRMAN_NEW_BUCKET_COUNT).flatMap fun _ => intBytes 4 0 := by
  have none_ : ({ nKey } : CAddrMan).inOrder = [] := inOrder_empty rfl
  have noNew : ({ nKey } : CAddrMan).newEntries = [] := by
    rw [newEntries, none_]
    rfl
  have noTried : ({ nKey } : CAddrMan).triedEntries = [] := by
    rw [triedEntries, none_]
    rfl
  have noIds : ∀ bucket, ({ nKey } : CAddrMan).bucketIds bucket = [] := by
    intro bucket
    rw [bucketIds]
    exact List.filterMap_none _
  refine ⟨_, by rw [serialize, noNew, noTried]; rfl, ?_⟩
  rw [Writes.bytes_append, Writes.bytes_append, Writes.bytes_append, Writes.bytes_flatMap, range_buckets, List.flatMap_map]
  simp only [noIds, serializeBucket_none, Writes.bytes_cons, Writes.bytes_nil, List.append_nil, headerBytes]

theorem loadBuckets_nothing (usable : Bool) (buckets : List Nat) (s : CAddrMan) :
    Reads (loadBuckets k usable buckets s) s (buckets.flatMap fun _ => intBytes 4 0) := by
  induction buckets with
  | nil => exact Reads.pure s
  | cons bucket buckets ih =>
    have size : Reads (fromStream (readInt 4)) 0 (intBytes 4 0) := fromStream_reads (readInt_reads (by decide) (by unfold InInt; omega))
    rw [List.flatMap_cons]
    exact size.bind ((Reads.pure s).bind ih)

theorem loadRest_nothing (header : FileHeader) (noNew : header.nNew = 0) (noTried : header.nTried = 0) (noInfo : s.mapInfo = ∅) :
    Reads (loadRest k header s) { man := { s with nIdCount := 0, nTried := 0 } }
      ((List.range header.nUBuckets.toNat).flatMap fun _ => intBytes 4 0) := by
  have noOne : ({ s with nIdCount := 0, nTried := 0 } : CAddrMan).unreferenced = [] := unreferenced_empty noInfo
  have pruned : Reads (prune 0 { s with nIdCount := 0, nTried := 0 }) { man := { s with nIdCount := 0, nTried := 0 } } [] := by
    rw [prune, noOne]
    exact Reads.pure _
  have tried : Reads (loadTriedEntries k 0 { man := { s with nIdCount := 0 } }) { man := { s with nIdCount := 0 } } [] := Reads.pure _
  have buckets := loadBuckets_nothing (k := k) header.usable (List.range header.nUBuckets.toNat) { s with nIdCount := 0, nTried := 0 }
  generalize (List.range header.nUBuckets.toNat).flatMap (fun _ => intBytes 4 0) = bytes at buckets ⊢
  rw [loadRest, noNew, noTried, ← List.nil_append bytes]
  apply tried.bind
  rw [← List.append_nil bytes]
  exact buckets.bind pruned

theorem loadEntries_nothing (header : FileHeader) (noNew : header.nNew = 0) (noTried : header.nTried = 0) (noInfo : s.mapInfo = ∅) :
    Reads (loadEntries k header s) { man := { s with nKey := header.nKey, nIdCount := 0, nNew := 0, nTried := 0 } }
      ((List.range header.nUBuckets.toNat).flatMap fun _ => intBytes 4 0) := by
  have entries : Reads (loadNewEntries k header.usable [] { s with nKey := header.nKey, nNew := 0, nTried := 0 })
      { s with nKey := header.nKey, nNew := 0, nTried := 0 } [] := Reads.pure _
  have rest := loadRest_nothing (k := k) (s := { s with nKey := header.nKey, nNew := 0, nTried := 0 }) header noNew noTried noInfo
  generalize (List.range header.nUBuckets.toNat).flatMap (fun _ => intBytes 4 0) = bytes at rest ⊢
  rw [loadEntries, noNew, noTried, ← List.nil_append bytes]
  apply entries.bind
  rw [if_neg (by decide)]
  exact rest

theorem unserialize_new (noInfo : s.mapInfo = ∅) (nKey randHash : uint256) : Reads (s.unserialize k randHash) { man := s.clear nKey }
    (({ nKey } : CAddrMan).headerBytes ++ (List.range ADDRMAN_NEW_BUCKET_COUNT).flatMap fun _ => intBytes 4 0) := by
  have zero : InInt 4 0 := by
    unfold InInt
    omega
  have header := readHeader_reads (s := { nKey }) zero zero
  have entries := loadEntries_nothing (k := k) (s := s.clear randHash) ({ nKey } : CAddrMan).header rfl rfl noInfo
  have count : ({ nKey } : CAddrMan).header.nUBuckets.toNat = ADDRMAN_NEW_BUCKET_COUNT := Int.toNat_natCast _
  rw [count] at entries
  exact header.bind entries

theorem noInfo_of_checks (checks : (s.clear 1).check k = .ok ()) : s.mapInfo = ∅ := by
  obtain ⟨_, checks⟩ := Checked.after_refuse checks
  obtain ⟨sets, gathered, _⟩ := Checked.bind_ok checks
  apply AList.ext
  cases entries : s.mapInfo.entries with
  | nil => rfl
  | cons e rest =>
    rw [show (s.clear 1).mapInfo.entries = e :: rest from entries, List.foldlM_cons] at gathered
    obtain ⟨sets', checked, _⟩ := Checked.bind_ok gathered
    obtain ⟨_, _, checked⟩ := Checked.bind_ok checked
    obtain ⟨_, checked⟩ := Checked.after_refuse checked
    obtain ⟨random, _⟩ := Checked.after_refuse checked
    cases random

/-- Nothing remains after `Clear` exactly where there was no entry and no address. -/
theorem clearsAll_iff : s.ClearsAll k ↔ s.mapInfo = ∅ ∧ s.mapAddr = ∅ := by
  constructor
  · intro clears
    have noInfo := noInfo_of_checks (clears.checks 1 (by decide))
    refine ⟨noInfo, ?_⟩
    obtain ⟨writes, serialized, bytes⟩ := serialize_new 0 1
    have same := clears.loads 0 { nKey := 1 } writes serialized 1 1
    have loaded := unserialize_new (k := k) noInfo 1 1 []
    have loaded' := unserialize_new (k := k) (s := { nKey := 1 }) rfl 1 1 []
    rw [List.append_nil, ← bytes] at loaded loaded'
    rw [loaded, loaded'] at same
    have managers := congrArg (fun l : Loaded × List UInt8 => l.1.man.mapAddr) (Except.ok.inj same)
    exact managers
  · intro ⟨noInfo, noAddr⟩
    have fresh := clear_of_empty noInfo noAddr
    constructor
    · intro nKey nonnull
      rw [fresh]
      exact check_ok (settled_empty k nKey) nonnull
    · intro nKey addr
      rw [fresh]
      rfl
    · intro nKey nVersion
      obtain ⟨writes, serialized, _⟩ := serialize_new nVersion nKey
      exact ⟨writes, by rw [fresh, serialized]⟩
    · intro nVersion other writes _ randHash nKey
      unfold unserialize
      rw [fresh, clear_of_empty (s := { nKey }) rfl rfl]

def oneAddress : List AddrOp := [.add ⟨⟨⟨1⟩, 9000⟩, 1, 1000⟩ ⟨7⟩ 0 ⟨1000, 1000, 0⟩]

theorem clear_leaves_entries : ¬∀ (k : AddrBuckets) (nKey : uint256) (ops : List AddrOp) (answers : List AddrAnswer) (s : CAddrMan), nKey ≠ 0 →
    (∀ op ∈ ops, op.Allowed) → Run.run (step k) { nKey } ops = some (answers, s) → s.ClearsAll k := by
  intro always
  have reached : ∃ answers s, Run.run (step oneBucket) { nKey := 1 } oneAddress = some (answers, s) ∧ s.mapInfo.lookup 0 ≠ none :=
    ⟨_, _, rfl, by decide⟩
  obtain ⟨answers, s, ran, some_⟩ := reached
  have clears := always oneBucket 1 oneAddress answers s (by decide) (fun op member => by
    obtain rfl := List.mem_singleton.mp member
    trivial) ran
  have noInfo := noInfo_of_checks (clears.checks 1 (by decide))
  rw [noInfo] at some_
  exact some_ rfl

end CAddrMan

end SchillingCoin.Net
