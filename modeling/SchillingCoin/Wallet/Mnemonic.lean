import SchillingCoin.Lib.BitString
import SchillingCoin.Wallet.HDChain

/-!
The recovery phrases of `wallet/bip39.cpp`, and how `SetMnemonic` with a new id takes one. The word list, SHA-256 and the derivation of a
seed are parameters.
-/

namespace SchillingCoin

structure WordList where
  words : List valtype
  size : words.length = 2048
  nodup : words.Nodup
  letters : ∀ word ∈ words, word ≠ [] ∧ word.length ≤ 8 ∧ 32 ∉ word

structure CMnemonic where
  wordlist : WordList
  /-- `CSHA256`. -/
  sha256 : valtype → valtype
  sha256_size : ∀ data, (sha256 data).length = 32
  /-- `PKCS5_PBKDF2_HMAC` of the mnemonic and the salt. -/
  pbkdf2 : valtype → valtype → valtype
  pbkdf2_size : ∀ mnemonic salt, (pbkdf2 mnemonic salt).length = 64

def join (separator : valtype) : List valtype → valtype
  | [] => []
  | [word] => word
  | word :: rest => word ++ separator ++ join separator rest

namespace CMnemonic

variable (m : CMnemonic)

variable (bits mnemonic : valtype)

def wordIndex (i : Nat) : Nat :=
  (List.range 11).foldl
    (fun idx j => 2 * idx + (decide (bits.getD ((i * 11 + j) / 8) 0 &&& 1 <<< UInt8.ofNat (7 - (i * 11 + j) % 8) > 0)).toNat) 0

def fromData (data : valtype) (len : Nat) : List valtype :=
  let checksum := m.sha256 (data.take len)
  let bits := data.take len ++ [checksum.getD 0 0]
  (List.range (len * 3 / 4)).map fun i => m.wordlist.words.getD (wordIndex bits i) []

/-- `Generate` of a strength of 256 bits, from what `GetRandBytes` gives. -/
def generate (random : valtype) : List valtype := m.fromData random (256 / 8)

inductive Stop where
  | refused
  /-- The buffer is indexed past its end. -/
  | outOfRange
  deriving DecidableEq, Repr

def setBit (nBitsCount : UInt32) : Except Stop valtype :=
  if (nBitsCount / 8).toNat < bits.length then
    .ok (bits.modify (nBitsCount / 8).toNat fun byte => byte ||| 1 <<< UInt8.ofNat (7 - (nBitsCount % 8).toNat))
  else .error .outOfRange

def putBits (nWordIndex : Nat) : (left : Nat) → valtype → UInt32 → Except Stop (valtype × UInt32)
  | 0, bits, nBitsCount => .ok (bits, nBitsCount)
  | left + 1, bits, nBitsCount =>
    if nWordIndex &&& 1 <<< left ≠ 0 then
      match setBit bits nBitsCount with
      | .error stop => .error stop
      | .ok bits => putBits nWordIndex left bits (nBitsCount + 1)
    else putBits nWordIndex left bits (nBitsCount + 1)

/-- One word: no word has more than 9 letters, and it is looked up. -/
def putWord (ssCurrentWord : valtype) (bits : valtype) (nBitsCount : UInt32) : Except Stop (valtype × UInt32) :=
  if ssCurrentWord.length > 9 then .error .refused
  else match m.wordlist.words.idxOf? ssCurrentWord with
    | none => .error .refused
    | some nWordIndex => putBits nWordIndex 11 bits nBitsCount

def putWords (mnemonic bits : valtype) (nBitsCount : UInt32) : Except Stop (valtype × UInt32) :=
  match mnemonic with
  | [] => .ok (bits, nBitsCount)
  | c :: rest =>
    match m.putWord ((c :: rest).takeWhile (· != 32)) bits nBitsCount with
    | .error stop => .error stop
    | .ok put => putWords ((c :: rest).drop (((c :: rest).takeWhile (· != 32)).length + 1)) put.1 put.2
termination_by mnemonic.length
decreasing_by simp only [List.length_drop, List.length_cons]; omega

def wordCount : UInt32 := mnemonic.foldl (fun nWordCount c => if c = 32 then nWordCount + 1 else nWordCount) 0 + 1

def checksumMatches (nWordCount : UInt32) : Bool :=
  let bits := bits.set 32 (bits.getD (nWordCount * 4 / 3).toNat 0)
  let bits := m.sha256 (bits.take (nWordCount * 4 / 3).toNat) ++ bits.drop 32
  if nWordCount = 12 then bits.getD 0 0 &&& 0xf0 == bits.getD 32 0 &&& 0xf0
  else if nWordCount = 18 then bits.getD 0 0 &&& 0xfc == bits.getD 32 0 &&& 0xfc
  else if nWordCount = 24 then bits.getD 0 0 == bits.getD 32 0
  else false

/-- `none` where the buffer is indexed past its end. -/
def check : Option Bool :=
  if mnemonic.isEmpty then some false
  else
    let nWordCount := wordCount mnemonic
    if nWordCount ≠ 12 ∧ nWordCount ≠ 18 ∧ nWordCount ≠ 24 then some false
    else match m.putWords mnemonic (List.replicate 33 0) 0 with
      | .error .refused => some false
      | .error .outOfRange => none
      | .ok (bits, nBitsCount) =>
        if nBitsCount ≠ nWordCount * 11 then some false
        else some (m.checksumMatches bits nWordCount)

def toSeed (passphrase : valtype) : valtype :=
  m.pbkdf2 mnemonic ([0x6d, 0x6e, 0x65, 0x6d, 0x6f, 0x6e, 0x69, 0x63] ++ passphrase)

end CMnemonic

inductive MnemonicError where
  /-- `SetMnemonic: invalid mnemonic`, with the mnemonic. -/
  | invalidMnemonic (ssMnemonicTmp : valtype)
  | outOfRange
  deriving DecidableEq, Repr

namespace CHDChain

/-- The variables with the name `ssMnemonicTmp` after the block that generates a phrase: the one of the function, and the one that the block
declares again for the phrase, which ends with it. -/
structure MnemonicVariables where
  ssMnemonicTmp : valtype
  inBlock : Option valtype

def mnemonicVariables (m : CMnemonic) (ssMnemonic random : valtype) : MnemonicVariables where
  ssMnemonicTmp := ssMnemonic
  inBlock := if ssMnemonic.isEmpty then some (join [32] (m.generate random)) else none

/-- `SetMnemonic` with a new id. What is thrown leaves the chain as it was. -/
def updateMnemonic (chain : CHDChain) (m : CMnemonic) (f : KeyFunctions) (ssMnemonic ssMnemonicPassphrase random : valtype) :
    Except MnemonicError (CHDChain × Bool) :=
  if !chain.isNull then .ok (chain, false)
  else
    let ssMnemonicTmp := (mnemonicVariables m ssMnemonic random).ssMnemonicTmp
    match m.check ssMnemonicTmp with
    | none => .error .outOfRange
    | some false => .error (.invalidMnemonic (ssMnemonicTmp.takeWhile (· != 0)))
    | some true =>
      let seeded := { chain with vchSeed := m.toSeed ssMnemonicTmp ssMnemonicPassphrase }
      let set : CHDChain := { seeded with
        id := getSeedHash f seeded
        vchMnemonic := ssMnemonicTmp
        vchMnemonicPassphrase := ssMnemonicPassphrase }
      .ok (set, !set.isNull)

end CHDChain

/-- What the loop takes as words. After a space at the end it takes none. -/
def wordsOf (mnemonic : valtype) : List valtype :=
  match mnemonic with
  | [] => []
  | c :: rest =>
    (c :: rest).takeWhile (· != 32) :: wordsOf ((c :: rest).drop (((c :: rest).takeWhile (· != 32)).length + 1))
termination_by mnemonic.length
decreasing_by simp only [List.length_drop, List.length_cons]; omega

theorem wordsOf_last (some : word ≠ []) (noSpace : 32 ∉ word) : wordsOf word = [word] := by
  have all : word.takeWhile (· != 32) = word := by
    have whole : (word ++ []).takeWhile (· != 32) = word ++ ([] : valtype).takeWhile (· != 32) :=
      List.takeWhile_append_of_pos fun c member => bne_iff_ne.mpr fun space => noSpace (space ▸ member)
    rwa [List.append_nil, List.takeWhile_nil, List.append_nil] at whole
  cases word with
  | nil => exact absurd rfl some
  | cons c rest =>
    rw [wordsOf, all, List.drop_of_length_le (Nat.le_succ _), wordsOf]

theorem wordsOf_append (noSpace : 32 ∉ word) (rest : valtype) : wordsOf (word ++ 32 :: rest) = word :: wordsOf rest := by
  have first : (word ++ 32 :: rest).takeWhile (· != 32) = word := by
    rw [List.takeWhile_append_of_pos, List.takeWhile_cons_of_neg (by decide), List.append_nil]
    intro c member
    exact bne_iff_ne.mpr fun space => noSpace (space ▸ member)
  have past : (word ++ 32 :: rest).drop (word.length + 1) = rest := by
    rw [List.drop_append]
    simp
  cases whole : word ++ 32 :: rest with
  | nil => exact absurd whole (by simp)
  | cons c tail =>
    rw [wordsOf, ← whole, first, past]

theorem word_cases (mnemonic : valtype) :
    32 ∉ mnemonic ∨ ∃ word rest, 32 ∉ word ∧ mnemonic = word ++ 32 :: rest := by
  by_cases space : 32 ∈ mnemonic
  · obtain ⟨word, rest, whole, first⟩ := List.eq_append_cons_of_mem space
    exact Or.inr ⟨word, rest, first, whole⟩
  · exact Or.inl space

theorem join_cons (word : valtype) (more : rest ≠ []) : join [32] (word :: rest) = word ++ 32 :: join [32] rest := by
  cases rest with
  | nil => exact absurd rfl more
  | cons _ _ => exact List.append_assoc _ _ _

theorem wordsOf_count (mnemonic : valtype) : (wordsOf mnemonic).length ≤ mnemonic.count 32 + 1 ∧
    ((wordsOf mnemonic).length = mnemonic.count 32 + 1 → join [32] (wordsOf mnemonic) = mnemonic) := by
  induction size : mnemonic.length using Nat.strong_induction_on generalizing mnemonic with
  | _ n ih =>
    subst size
    by_cases empty : mnemonic = []
    · subst empty
      rw [wordsOf]
      exact ⟨Nat.zero_le _, fun same => absurd same (by simp)⟩
    rcases word_cases mnemonic with noSpace | ⟨word, rest, noSpace, rfl⟩
    · rw [wordsOf_last empty noSpace, List.count_eq_zero_of_not_mem noSpace]
      exact ⟨le_rfl, fun _ => rfl⟩
    · obtain ⟨few, whole⟩ := ih rest.length (by simp; omega) rest rfl
      rw [wordsOf_append noSpace, List.length_cons, List.count_append, List.count_cons_self, List.count_eq_zero_of_not_mem noSpace]
      refine ⟨by omega, fun all => ?_⟩
      have count : (wordsOf rest).length = rest.count 32 + 1 := by omega
      rw [join_cons word (List.ne_nil_of_length_pos (by omega)), whole count]

theorem wordsOf_join (letters : ∀ word ∈ words, word ≠ [] ∧ 32 ∉ word) : wordsOf (join [32] words) = words := by
  induction words with
  | nil => rw [join, wordsOf]
  | cons word words ih =>
    obtain ⟨some, noSpace⟩ := letters _ List.mem_cons_self
    cases rest : words with
    | nil => exact wordsOf_last some noSpace
    | cons next later =>
      rw [← rest, join_cons word (by rw [rest]; exact List.cons_ne_nil _ _), wordsOf_append noSpace,
        ih fun w member => letters w (List.mem_cons_of_mem _ member)]

theorem count_join (some : words ≠ []) (noSpace : ∀ word ∈ words, 32 ∉ word) :
    (join [32] words).count 32 + 1 = words.length := by
  induction words with
  | nil => exact absurd rfl some
  | cons word words ih =>
    have none := List.count_eq_zero_of_not_mem (noSpace word List.mem_cons_self)
    cases rest : words with
    | nil =>
      show word.count 32 + 1 = 1
      rw [none]
    | cons next later =>
      have more : words ≠ [] := by
        rw [rest]
        exact List.cons_ne_nil _ _
      have later := ih more fun w member => noSpace w (List.mem_cons_of_mem _ member)
      rw [← rest, join_cons word more, List.count_append, List.count_cons_self, none, List.length_cons]
      omega

namespace WordList

variable (w : WordList)

def word (nWordIndex : Nat) : valtype := w.words.getD nWordIndex []

variable {nWordIndex : Nat}

theorem getElem_word (small : nWordIndex < 2 ^ 11) :
    ∃ inside : nWordIndex < w.words.length, w.word nWordIndex = w.words[nWordIndex] := by
  have size := w.size
  exact ⟨by omega, List.getD_eq_getElem _ _ _⟩

theorem word_mem (small : nWordIndex < 2 ^ 11) : w.word nWordIndex ∈ w.words := by
  obtain ⟨inside, same⟩ := w.getElem_word small
  rw [same]
  exact List.getElem_mem inside

theorem idxOf?_word (small : nWordIndex < 2 ^ 11) :
    w.words.idxOf? (w.word nWordIndex) = some nWordIndex := by
  obtain ⟨inside, same⟩ := w.getElem_word small
  rw [same]
  refine List.idxOf?_eq_some_iff.mpr ⟨inside, rfl, fun j before equal => ?_⟩
  exact absurd ((List.Nodup.getElem_inj_iff w.nodup).mp equal) (by omega)

theorem word_of_mem {text : valtype} (member : text ∈ w.words) : ∃ nWordIndex < 2 ^ 11, text = w.word nWordIndex := by
  have size := w.size
  obtain ⟨nWordIndex, inside, rfl⟩ := List.getElem_of_mem member
  exact ⟨nWordIndex, by omega, (List.getD_eq_getElem _ _ _).symm⟩

theorem word_injective {indices : List Nat} (small : ∀ k ∈ indices, k < 2 ^ 11) (smallOthers : ∀ k ∈ others, k < 2 ^ 11)
    (same : indices.map w.word = others.map w.word) : indices = others := by
  have looked := congrArg (List.map w.words.idxOf?) same
  have back : ∀ {indices : List Nat}, (∀ k ∈ indices, k < 2 ^ 11) → (indices.map w.word).map w.words.idxOf? = indices.map some := by
    intro indices small
    rw [List.map_map]
    exact List.map_congr_left fun k member => w.idxOf?_word (small k member)
  rw [back small, back smallOthers] at looked
  exact List.map_injective_iff.mpr (Option.some_injective _) looked

end WordList

namespace CMnemonic

variable (mnemonic : valtype) (m : CMnemonic)

theorem wordCount_toNat : (wordCount mnemonic).toNat = (mnemonic.count 32 + 1) % 2 ^ 32 := by
  have counted : ∀ (mnemonic : valtype) (n : UInt32),
      (mnemonic.foldl (fun nWordCount c => if c = 32 then nWordCount + 1 else nWordCount) n).toNat =
        (n.toNat + mnemonic.count 32) % 2 ^ 32 := by
    intro mnemonic
    induction mnemonic with
    | nil =>
      intro n
      exact (Nat.mod_eq_of_lt n.toNat_lt).symm
    | cons c rest ih =>
      intro n
      rw [List.foldl_cons, ih]
      by_cases space : c = 32
      · subst space
        rw [if_pos rfl, UInt32.toNat_add, List.count_cons_self, UInt32.toNat_one]
        omega
      · rw [if_neg space, List.count_cons_of_ne space]
  rw [wordCount, UInt32.toNat_add, counted, UInt32.toNat_zero, UInt32.toNat_one]
  omega

theorem putBits_spec {left zeros : Nat} {bits : valtype} {nBitsCount : UInt32} {stream : List Bool}
    (holds : BitString.ofBytes bits = stream ++ List.replicate (left + zeros) false) (count : nBitsCount.toNat = stream.length)
    (room : stream.length + left < 2 ^ 32) :
    ∃ bits' nBitsCount', putBits nWordIndex left bits nBitsCount = .ok (bits', nBitsCount') ∧
      nBitsCount'.toNat = stream.length + left ∧
      BitString.ofBytes bits' = stream ++ BitString.ofNat left nWordIndex ++ List.replicate zeros false := by
  induction left generalizing bits nBitsCount stream with
  | zero => exact ⟨bits, nBitsCount, rfl, count, by simpa [BitString.ofNat] using holds⟩
  | succ left ih =>
    have next : (nBitsCount + 1).toNat = stream.length + 1 := by
      rw [UInt32.toNat_add, count, UInt32.toNat_one]
      omega
    -- Either bit stands where the buffer had its first zero.
    have goOn (bit : Bool) (isBit : nWordIndex.testBit left = bit) (bits' : valtype)
        (holds' : BitString.ofBytes bits' = (stream ++ [bit]) ++ List.replicate (left + zeros) false) :
        ∃ bits'' nBitsCount', putBits nWordIndex left bits' (nBitsCount + 1) = .ok (bits'', nBitsCount') ∧
          nBitsCount'.toNat = stream.length + (left + 1) ∧
          BitString.ofBytes bits'' = stream ++ BitString.ofNat (left + 1) nWordIndex ++ List.replicate zeros false := by
      obtain ⟨bits'', nBitsCount', put, counted, written⟩ := ih holds'
        (show (nBitsCount + 1).toNat = (stream ++ [bit]).length by rw [next, List.length_append, List.length_singleton])
        (by rw [List.length_append, List.length_singleton]; omega)
      refine ⟨bits'', nBitsCount', put, ?_, ?_⟩
      · rw [counted, List.length_append, List.length_singleton]
        omega
      · rw [written, BitString.ofNat, isBit]
        simp
    have zeroFirst : List.replicate (left + 1 + zeros) false = false :: List.replicate (left + zeros) false := by
      rw [show left + 1 + zeros = left + zeros + 1 by omega, List.replicate_succ]
    rw [zeroFirst] at holds
    have tested : nWordIndex &&& 1 <<< left ≠ 0 ↔ nWordIndex.testBit left = true := by
      rw [Nat.one_shiftLeft, Nat.and_two_pow]
      have positive := Nat.two_pow_pos left
      cases nWordIndex.testBit left <;> simp
    rw [putBits]
    by_cases bit : nWordIndex.testBit left = true
    · rw [if_pos (tested.mpr bit), setBit, UInt32.toNat_div, UInt32.toNat_mod, count]
      have size := congrArg List.length holds
      rw [BitString.length_ofBytes] at size
      simp only [List.length_append, List.length_cons, List.length_replicate] at size
      have eight : (8 : UInt32).toNat = 8 := rfl
      rw [eight, if_pos (by omega)]
      apply goOn true bit
      rw [BitString.ofBytes_modify, holds]
      simp
    · rw [if_neg (fun set => bit (tested.mp set))]
      apply goOn false (Bool.eq_false_iff.mpr bit)
      rw [holds]
      simp

variable {m : CMnemonic}

theorem putWord_refused {word bits : valtype} {nBitsCount : UInt32} (unknown : word ∉ m.wordlist.words) :
    m.putWord word bits nBitsCount = .error .refused := by
  unfold putWord
  split
  · rfl
  · rw [List.idxOf?_eq_none_iff.mpr unknown]

theorem putWord_listed {nWordIndex : Nat} (small : nWordIndex < 2 ^ 11) (bits : valtype) (nBitsCount : UInt32) :
    m.putWord (m.wordlist.word nWordIndex) bits nBitsCount = putBits nWordIndex 11 bits nBitsCount := by
  have short := (m.wordlist.letters _ (m.wordlist.word_mem small)).2.1
  unfold putWord
  rw [if_neg (by omega), m.wordlist.idxOf?_word small]

def putAll (m : CMnemonic) : List valtype → valtype → UInt32 → Except Stop (valtype × UInt32)
  | [], bits, nBitsCount => .ok (bits, nBitsCount)
  | word :: rest, bits, nBitsCount =>
    match m.putWord word bits nBitsCount with
    | .error stop => .error stop
    | .ok put => putAll m rest put.1 put.2

theorem putWords_eq (bits : valtype) (nBitsCount : UInt32) :
    m.putWords mnemonic bits nBitsCount = m.putAll (wordsOf mnemonic) bits nBitsCount := by
  induction mnemonic using wordsOf.induct generalizing bits nBitsCount with
  | case1 => rw [putWords, wordsOf, putAll]
  | case2 c rest ih =>
    rw [putWords, wordsOf, putAll]
    cases m.putWord ((c :: rest).takeWhile (· != 32)) bits nBitsCount with
    | error stop => rfl
    | ok put => exact ih put.1 put.2

theorem putAll_spec {words : List valtype} {zeros : Nat} {bits : valtype} {nBitsCount : UInt32} {stream : List Bool}
    (holds : BitString.ofBytes bits = stream ++ List.replicate (11 * words.length + zeros) false)
    (count : nBitsCount.toNat = stream.length) (room : stream.length + 11 * words.length < 2 ^ 32) :
    (m.putAll words bits nBitsCount = .error .refused ∧ ∃ word ∈ words, word ∉ m.wordlist.words) ∨
    ∃ indices bits' nBitsCount', m.putAll words bits nBitsCount = .ok (bits', nBitsCount') ∧
      words = indices.map m.wordlist.word ∧ (∀ k ∈ indices, k < 2 ^ 11) ∧
      nBitsCount'.toNat = stream.length + 11 * words.length ∧
      BitString.ofBytes bits' = stream ++ BitString.ofWords 11 indices ++ List.replicate zeros false := by
  induction words generalizing bits nBitsCount stream with
  | nil =>
    refine Or.inr ⟨[], bits, nBitsCount, rfl, rfl, fun k member => absurd member List.not_mem_nil, count, ?_⟩
    simpa [BitString.ofWords] using holds
  | cons word rest ih =>
    rw [List.length_cons] at holds room
    by_cases listed : word ∈ m.wordlist.words
    · obtain ⟨nWordIndex, small, rfl⟩ := m.wordlist.word_of_mem listed
      obtain ⟨put, counted, same, atEnd, written⟩ := @putBits_spec nWordIndex 11 (11 * rest.length + zeros) _ _ _
        (by rw [holds]; congr 2; omega) count (by omega)
      have size : (stream ++ BitString.ofNat 11 nWordIndex).length = stream.length + 11 := by
        rw [List.length_append, BitString.length_ofNat]
      have first : m.putAll (m.wordlist.word nWordIndex :: rest) bits nBitsCount = m.putAll rest put counted := by
        rw [putAll, putWord_listed small, same]
      rw [first]
      rcases ih written (atEnd.trans size.symm) (by omega) with
        ⟨refused, w, member, unknown⟩ | ⟨indices, bits', nBitsCount', done, rfl, below, total, whole⟩
      · exact Or.inl ⟨refused, w, List.mem_cons_of_mem _ member, unknown⟩
      · refine Or.inr ⟨nWordIndex :: indices, bits', nBitsCount', done, rfl, ?_, ?_, ?_⟩
        · exact List.forall_mem_cons.mpr ⟨small, below⟩
        · rw [total, size, List.length_cons]
          omega
        · rw [whole]
          simp [BitString.ofWords]
    · refine Or.inl ⟨?_, word, List.mem_cons_self, listed⟩
      rw [putAll, putWord_refused listed]

theorem wordIndex_eq (inside : i * 11 + 11 ≤ 8 * bits.length) :
    wordIndex bits i = BitString.toNat (((BitString.ofBytes bits).drop (11 * i)).take 11) := by
  have window : ((BitString.ofBytes bits).drop (11 * i)).take 11 = (List.range 11).map fun j =>
      decide (bits.getD ((i * 11 + j) / 8) 0 &&& 1 <<< UInt8.ofNat (7 - (i * 11 + j) % 8) > 0) := by
    apply List.ext_getElem?
    intro j
    rw [List.getElem?_take, List.getElem?_map, List.getElem?_drop, BitString.getElem?_ofBytes]
    by_cases early : j < 11
    · have byte : (i * 11 + j) / 8 < bits.length := by omega
      rw [if_pos early, List.getElem?_range early, Nat.mul_comm 11 i, List.getElem?_eq_getElem byte, Option.map_some, Option.map_some,
        BitString.testBit_and_shift _ (by omega), List.getD_eq_getElem _ _ byte]
    · rw [if_neg early, List.getElem?_eq_none_iff.mpr (by rw [List.length_range]; omega)]
      rfl
  rw [window, BitString.toNat, List.foldl_map]
  rfl

structure PhraseSize (len nWordCount : Nat) : Prop where
  known : (len = 16 ∧ nWordCount = 12) ∨ (len = 24 ∧ nWordCount = 18) ∨ (len = 32 ∧ nWordCount = 24)

def checksumByte (m : CMnemonic) (data : valtype) : UInt8 := (m.sha256 data).getD 0 0

variable {len nWordCount : Nat} {data : valtype} {indices : List Nat}

theorem fromData_eq (sizes : PhraseSize len nWordCount) (size : data.length = len) :
    m.fromData data len =
      (BitString.cut 11 nWordCount (BitString.ofBytes (data ++ [m.checksumByte data]))).map m.wordlist.word := by
  have whole : data.take len = data := List.take_of_length_le size.le
  have words : len * 3 / 4 = nWordCount := by
    have := sizes.known
    omega
  have room : nWordCount * 11 ≤ 8 * (len + 1) := by
    have := sizes.known
    omega
  unfold fromData
  dsimp only
  rw [whole, words]
  apply List.ext_getElem?
  intro i
  rw [List.getElem?_map, List.getElem?_map]
  by_cases inside : i < nWordCount
  · rw [List.getElem?_range inside, BitString.getElem?_cut _ inside, Option.map_some, Option.map_some, ← wordIndex_eq]
    · rfl
    · rw [List.length_append, List.length_singleton, size]
      omega
  · rw [List.getElem?_eq_none_iff.mpr (by rw [List.length_range]; omega),
      List.getElem?_eq_none_iff.mpr (by rw [BitString.length_cut]; omega)]
    rfl

def phraseBits (m : CMnemonic) (nWordCount : Nat) (data : valtype) : List Bool :=
  (BitString.ofBytes (data ++ [m.checksumByte data])).take (11 * nWordCount)

theorem phraseBits_eq (sizes : PhraseSize len nWordCount) (size : data.length = len) :
    m.phraseBits nWordCount data =
      BitString.ofBytes data ++ (BitString.ofNat 8 (m.checksumByte data).toNat).take (11 * nWordCount - 8 * len) := by
  have more : 8 * len ≤ 11 * nWordCount := by
    have := sizes.known
    omega
  have last : BitString.ofBytes [m.checksumByte data] = BitString.ofNat 8 (m.checksumByte data).toNat := List.append_nil _
  have before : (BitString.ofBytes data).take (11 * nWordCount) = BitString.ofBytes data := by
    rw [List.take_of_length_le]
    rw [BitString.length_ofBytes, size]
    exact more
  rw [phraseBits, BitString.ofBytes_append, List.take_append, BitString.length_ofBytes, size, last, before]

theorem checksumMatches_eq (length : bits.length = 33) {nWordCount : UInt32} (sizes : PhraseSize len nWordCount.toNat) :
    m.checksumMatches bits nWordCount = true ↔
      (BitString.ofNat 8 (m.checksumByte (bits.take len)).toNat).take (11 * nWordCount.toNat - 8 * len) =
        (BitString.ofNat 8 (bits.getD len 0).toNat).take (11 * nWordCount.toNat - 8 * len) := by
  have few : len ≤ 32 := by
    have := sizes.known
    omega
  have entropy : (nWordCount * 4 / 3).toNat = len := by
    have := sizes.known
    have four : (4 : UInt32).toNat = 4 := rfl
    have three : (3 : UInt32).toNat = 3 := rfl
    rw [UInt32.toNat_div, UInt32.toNat_mul, four, three]
    omega
  have taken : (bits.set 32 (bits.getD len 0)).take len = bits.take len := List.take_set_of_le few
  have hash := m.sha256_size (bits.take len)
  have first : (m.sha256 (bits.take len) ++ (bits.set 32 (bits.getD len 0)).drop 32).getD 0 0 = m.checksumByte (bits.take len) := by
    rw [checksumByte, List.getD_append _ _ _ _ (by omega)]
  have last : (m.sha256 (bits.take len) ++ (bits.set 32 (bits.getD len 0)).drop 32).getD 32 0 = bits.getD len 0 := by
    rw [List.getD_append_right _ _ _ _ (by omega), hash, List.getD_eq_getElem?_getD, List.getElem?_drop, List.getElem?_set]
    rw [if_pos rfl, if_pos (by omega), Option.getD_some]
  unfold checksumMatches
  dsimp only
  rw [entropy, taken, first, last]
  rcases sizes.known with ⟨rfl, words⟩ | ⟨rfl, words⟩ | ⟨rfl, words⟩
  · obtain rfl : nWordCount = 12 := UInt32.toNat_inj.mp words
    rw [if_pos rfl, beq_iff_eq]
    exact BitString.and_eq_and_iff (by decide)
  · obtain rfl : nWordCount = 18 := UInt32.toNat_inj.mp words
    rw [if_neg (by decide), if_pos rfl, beq_iff_eq]
    exact BitString.and_eq_and_iff (by decide)
  · obtain rfl : nWordCount = 24 := UInt32.toNat_inj.mp words
    rw [if_neg (by decide), if_neg (by decide), if_pos rfl, beq_iff_eq]
    have full : (11 * (24 : UInt32).toNat - 8 * 32) = 8 := rfl
    have eight (byte : UInt8) : (BitString.ofNat 8 byte.toNat).take 8 = BitString.ofNat 8 byte.toNat :=
      List.take_of_length_le (BitString.length_ofNat _ _).le
    rw [full, eight, eight]
    refine ⟨fun same => by rw [same], fun same => UInt8.toNat_inj.mp ?_⟩
    exact BitString.ofNat_injective (UInt8.toNat_lt _) (UInt8.toNat_lt _) same

theorem checksumMatches_iff {nWordCount : UInt32}
    (holds : BitString.ofBytes bits = BitString.ofWords 11 indices ++ List.replicate zeros false)
    (count : indices.length = nWordCount.toNat) (length : bits.length = 33) (sizes : PhraseSize len nWordCount.toNat) :
    m.checksumMatches bits nWordCount = true ↔ BitString.ofWords 11 indices = m.phraseBits nWordCount.toNat (bits.take len) := by
  have words : (BitString.ofWords 11 indices).length = 11 * nWordCount.toNat := by
    rw [BitString.length_ofWords, count]
  have known := sizes.known
  have size : (bits.take len).length = len := by
    rw [List.length_take]
    omega
  have entropy : BitString.ofBytes (bits.take len) = (BitString.ofWords 11 indices).take (8 * len) := by
    rw [BitString.ofBytes_take, holds, List.take_append_of_le_length (by omega)]
  have byte : BitString.ofNat 8 (bits.getD len 0).toNat = ((BitString.ofBytes bits).drop (8 * len)).take 8 := by
    have inside : len < bits.length := by omega
    rw [← BitString.ofBytes_drop, List.drop_eq_getElem_cons inside, BitString.ofBytes_cons, List.getD_eq_getElem _ _ inside,
      List.take_left' (BitString.length_ofNat _ _)]
  have rest : (BitString.ofNat 8 (bits.getD len 0).toNat).take (11 * nWordCount.toNat - 8 * len) =
      (BitString.ofWords 11 indices).drop (8 * len) := by
    rw [byte, List.take_take, holds, List.drop_append_of_le_length (by omega), List.take_append_of_le_length
      (by rw [List.length_drop]; omega), List.take_of_length_le (by rw [List.length_drop]; omega)]
  have parts := List.take_append_drop (8 * len) (BitString.ofWords 11 indices)
  rw [checksumMatches_eq length sizes, phraseBits_eq sizes size, entropy, rest]
  constructor
  · intro same
    rw [same, parts]
  · intro same
    exact (List.append_cancel_left (parts.trans same)).symm

theorem phrase_spec (sizes : PhraseSize len nWordCount) (size : data.length = len) :
    ∃ indices : List Nat, m.fromData data len = indices.map m.wordlist.word ∧ indices.length = nWordCount ∧
      (∀ k ∈ indices, k < 2 ^ 11) ∧ BitString.ofWords 11 indices = m.phraseBits nWordCount data ∧
      wordsOf (join [32] (m.fromData data len)) = m.fromData data len ∧
      (join [32] (m.fromData data len)).count 32 + 1 = nWordCount := by
  have known := sizes.known
  have room : 11 * nWordCount ≤ (BitString.ofBytes (data ++ [m.checksumByte data])).length := by
    rw [BitString.length_ofBytes, List.length_append, List.length_singleton, size]
    omega
  have words := m.fromData_eq sizes size
  have small : ∀ k ∈ BitString.cut 11 nWordCount (BitString.ofBytes (data ++ [m.checksumByte data])), k < 2 ^ 11 :=
    fun k member => BitString.cut_lt member
  have letters : ∀ word ∈ m.fromData data len, word ≠ [] ∧ 32 ∉ word := by
    intro word member
    rw [words] at member
    obtain ⟨k, isIndex, rfl⟩ := List.mem_map.mp member
    obtain ⟨some, _, noSpace⟩ := m.wordlist.letters _ (m.wordlist.word_mem (small k isIndex))
    exact ⟨some, noSpace⟩
  have count : (m.fromData data len).length = nWordCount := by
    rw [words, List.length_map, BitString.length_cut]
  refine ⟨_, words, BitString.length_cut _ _ _, small, BitString.ofWords_cut room, wordsOf_join letters, ?_⟩
  rw [count_join (List.ne_nil_of_length_pos (by omega)) fun word member => (letters word member).2, count]

def IsPhrase (m : CMnemonic) (mnemonic : valtype) : Prop :=
  ∃ data : valtype, (data.length = 16 ∨ data.length = 24 ∨ data.length = 32) ∧ mnemonic = join [32] (m.fromData data data.length)

theorem IsPhrase.sizes {mnemonic : valtype} (phrase : m.IsPhrase mnemonic) :
    ∃ (len nWordCount : Nat) (data : valtype), PhraseSize len nWordCount ∧ data.length = len ∧ mnemonic = join [32] (m.fromData data len) := by
  obtain ⟨data, size, rfl⟩ := phrase
  rcases size with size | size | size
  · exact ⟨16, 12, data, ⟨by omega⟩, size, by rw [size]⟩
  · exact ⟨24, 18, data, ⟨by omega⟩, size, by rw [size]⟩
  · exact ⟨32, 24, data, ⟨by omega⟩, size, by rw [size]⟩

theorem take_entropy (sizes : PhraseSize len nWordCount) (size : data.length = len)
    (holds : BitString.ofBytes bits = BitString.ofWords 11 indices ++ List.replicate zeros false)
    (words : BitString.ofWords 11 indices = m.phraseBits nWordCount data) : bits.take len = data := by
  apply BitString.ofBytes_injective
  have bytes : (BitString.ofBytes data).length = 8 * len := by
    rw [BitString.length_ofBytes, size]
  rw [BitString.ofBytes_take, holds, words, phraseBits_eq sizes size, List.append_assoc, List.take_left' bytes]

theorem checksumMatches_phrase {mnemonic : valtype} {zeros : Nat} {nWordCount : UInt32}
    (sizes : PhraseSize len nWordCount.toNat) (count : indices.length = nWordCount.toNat) (length : bits.length = 33)
    (holds : BitString.ofBytes bits = BitString.ofWords 11 indices ++ List.replicate zeros false)
    (small : ∀ k ∈ indices, k < 2 ^ 11) (words : wordsOf mnemonic = indices.map m.wordlist.word)
    (whole : join [32] (wordsOf mnemonic) = mnemonic) (spaces : mnemonic.count 32 + 1 = nWordCount.toNat) :
    m.checksumMatches bits nWordCount = true ↔ m.IsPhrase mnemonic := by
  have known := sizes.known
  rw [checksumMatches_iff holds count length sizes]
  constructor
  · intro entropy
    have size : (bits.take len).length = len := by
      rw [List.length_take]
      omega
    refine ⟨bits.take len, by omega, ?_⟩
    have rest := List.take_append_drop (11 * nWordCount.toNat)
      (BitString.ofBytes (bits.take len ++ [m.checksumByte (bits.take len)]))
    rw [phraseBits] at entropy
    rw [← entropy] at rest
    have same := BitString.cut_ofWords small
      ((BitString.ofBytes (bits.take len ++ [m.checksumByte (bits.take len)])).drop (11 * nWordCount.toNat))
    rw [rest, count] at same
    rw [size, m.fromData_eq sizes size, same, ← words, whole]
  · intro phrase
    obtain ⟨len', nWordCount', data, sizes', size, isJoin⟩ := phrase.sizes
    obtain ⟨indices', encoded, _, small', stream, read, count'⟩ := m.phrase_spec sizes' size
    rw [← isJoin] at read count'
    obtain rfl : nWordCount' = nWordCount.toNat := by omega
    obtain rfl : len' = len := by
      have := sizes'.known
      omega
    obtain rfl : indices = indices' := m.wordlist.word_injective small small' (by rw [← words, read, encoded])
    rw [take_entropy sizes size holds stream, stream]

theorem check_exact (counted : mnemonic.count 32 < 2 ^ 32) :
    ∃ accepted, m.check mnemonic = some accepted ∧ (accepted = true ↔ m.IsPhrase mnemonic) := by
  have number := wordCount_toNat mnemonic
  -- A phrase passes all that is asked before its checksum.
  have asked (phrase : m.IsPhrase mnemonic) : mnemonic ≠ [] ∧ ((wordCount mnemonic).toNat = 12 ∨ (wordCount mnemonic).toNat = 18 ∨
      (wordCount mnemonic).toNat = 24) ∧ (∀ word ∈ wordsOf mnemonic, word ∈ m.wordlist.words) ∧
      (wordsOf mnemonic).length = (wordCount mnemonic).toNat := by
    obtain ⟨len, nWordCount, data, sizes, size, isJoin⟩ := phrase.sizes
    obtain ⟨indices, encoded, length, small, _, read, count⟩ := m.phrase_spec sizes size
    rw [← isJoin] at read count
    have known := sizes.known
    refine ⟨?_, by omega, ?_, ?_⟩
    · rintro rfl
      rw [List.count_nil] at count
      omega
    · intro word member
      rw [read, encoded] at member
      obtain ⟨k, isIndex, rfl⟩ := List.mem_map.mp member
      exact m.wordlist.word_mem (small k isIndex)
    · rw [read, encoded, List.length_map, length]
      omega
  have refuse (reason : ¬ m.IsPhrase mnemonic) : ∃ accepted, some false = some accepted ∧ (accepted = true ↔ m.IsPhrase mnemonic) :=
    ⟨false, rfl, Iff.intro (fun same => absurd same Bool.false_ne_true) fun phrase => absurd phrase reason⟩
  unfold check
  by_cases empty : mnemonic = []
  · subst empty
    exact refuse fun phrase => (asked phrase).1 rfl
  rw [if_neg (by rwa [List.isEmpty_iff])]
  dsimp only
  by_cases unknown : wordCount mnemonic ≠ 12 ∧ wordCount mnemonic ≠ 18 ∧ wordCount mnemonic ≠ 24
  · rw [if_pos unknown]
    refine refuse fun phrase => ?_
    rcases (asked phrase).2.1 with words | words | words
    · exact unknown.1 (UInt32.toNat_inj.mp words)
    · exact unknown.2.1 (UInt32.toNat_inj.mp words)
    · exact unknown.2.2 (UInt32.toNat_inj.mp words)
  rw [if_neg unknown]
  obtain ⟨len, sizes⟩ : ∃ len, PhraseSize len (wordCount mnemonic).toNat := by
    by_cases twelve : wordCount mnemonic = 12
    · exact ⟨16, by rw [twelve]; exact ⟨Or.inl ⟨rfl, rfl⟩⟩⟩
    by_cases eighteen : wordCount mnemonic = 18
    · exact ⟨24, by rw [eighteen]; exact ⟨Or.inr (Or.inl ⟨rfl, rfl⟩)⟩⟩
    by_cases last : wordCount mnemonic = 24
    · exact ⟨32, by rw [last]; exact ⟨Or.inr (Or.inr ⟨rfl, rfl⟩)⟩⟩
    exact absurd ⟨twelve, eighteen, last⟩ unknown
  have known := sizes.known
  have spaces : mnemonic.count 32 + 1 = (wordCount mnemonic).toNat := by omega
  obtain ⟨few, whole⟩ := wordsOf_count mnemonic
  rw [putWords_eq]
  have zero : BitString.ofBytes (List.replicate 33 0) =
      [] ++ List.replicate (11 * (wordsOf mnemonic).length + (264 - 11 * (wordsOf mnemonic).length)) false := by
    rw [BitString.ofBytes_zeros, List.nil_append]
    congr 1
    omega
  rcases putAll_spec (m := m) zero (show (0 : UInt32).toNat = _ from rfl) (by simp; omega) with
    ⟨refused, word, member, notListed⟩ | ⟨indices, bits, nBitsCount, done, words, small, total, holds⟩
  · rw [refused]
    exact refuse fun phrase => notListed ((asked phrase).2.2.1 word member)
  · rw [done]
    dsimp only
    have bitsCount : (wordCount mnemonic * 11).toNat = 11 * (wordCount mnemonic).toNat := by
      have eleven : (11 : UInt32).toNat = 11 := rfl
      rw [UInt32.toNat_mul, eleven]
      omega
    rw [List.length_nil, Nat.zero_add] at total
    by_cases short : nBitsCount ≠ wordCount mnemonic * 11
    · rw [if_pos short]
      refine refuse fun phrase => short (UInt32.toNat_inj.mp ?_)
      rw [total, bitsCount, (asked phrase).2.2.2]
    · rw [if_neg short]
      rw [not_not] at short
      have length : (wordsOf mnemonic).length = (wordCount mnemonic).toNat := by
        have := congrArg UInt32.toNat short
        omega
      have count : indices.length = (wordCount mnemonic).toNat := by
        rw [← length, words, List.length_map]
      rw [List.nil_append] at holds
      have size : bits.length = 33 := by
        have := congrArg List.length holds
        rw [BitString.length_ofBytes, List.length_append, BitString.length_ofWords, List.length_replicate, count] at this
        omega
      exact ⟨_, rfl, checksumMatches_phrase sizes count size holds small words (whole (by omega)) spaces⟩

theorem putAll_append (done : m.putAll words bits nBitsCount = .ok (put, counted)) (more : List valtype) :
    m.putAll (words ++ more) bits nBitsCount = m.putAll more put counted := by
  induction words generalizing bits nBitsCount with
  | nil =>
    obtain ⟨rfl, rfl⟩ := Prod.mk.inj (Except.ok.inj done)
    rfl
  | cons word rest ih =>
    rw [putAll] at done
    rw [List.cons_append, putAll]
    cases first : m.putWord word bits nBitsCount with
    | error stop =>
      rw [first] at done
      exact nomatch done
    | ok next =>
      rw [first] at done
      exact ih done

theorem check_overlong (long : 24 < n) (twelve : n % 2 ^ 32 = 12) :
    m.check (join [32] (List.replicate n (m.wordlist.word 2047))) = none := by
  have small : 2047 < 2 ^ 11 := by omega
  obtain ⟨some, _, noSpace⟩ := m.wordlist.letters _ (m.wordlist.word_mem small)
  obtain ⟨rest, rfl⟩ : ∃ rest, n = 24 + (rest + 1) := ⟨n - 25, by omega⟩
  have words : wordsOf (join [32] (List.replicate (24 + (rest + 1)) (m.wordlist.word 2047))) =
      List.replicate (24 + (rest + 1)) (m.wordlist.word 2047) :=
    wordsOf_join fun word member => by rw [List.eq_of_mem_replicate member]; exact ⟨some, noSpace⟩
  have count := @count_join (List.replicate (24 + (rest + 1)) (m.wordlist.word 2047))
    (List.ne_nil_of_length_pos (by rw [List.length_replicate]; omega)) fun word member => by
      rw [List.eq_of_mem_replicate member]
      exact noSpace
  rw [List.length_replicate] at count
  have number : wordCount (join [32] (List.replicate (24 + (rest + 1)) (m.wordlist.word 2047))) = 12 := by
    apply UInt32.toNat_inj.mp
    rw [wordCount_toNat, count, twelve]
    rfl
  have notEmpty : join [32] (List.replicate (24 + (rest + 1)) (m.wordlist.word 2047)) ≠ [] := by
    intro empty
    rw [empty, List.count_nil] at count
    omega
  have full : BitString.ofBytes (List.replicate 33 0) =
      [] ++ List.replicate (11 * (List.replicate 24 (m.wordlist.word 2047)).length + 0) false := by
    rw [BitString.ofBytes_zeros, List.length_replicate, List.nil_append]
  -- The first 24 words fill the buffer, and the first bit of the next one has no place.
  have past : m.putAll (List.replicate 24 (m.wordlist.word 2047) ++ m.wordlist.word 2047 :: List.replicate rest (m.wordlist.word 2047))
      (List.replicate 33 0) 0 = .error .outOfRange := by
    rcases putAll_spec (m := m) full (show (0 : UInt32).toNat = _ from rfl) (by simp) with
      ⟨_, word, member, notListed⟩ | ⟨indices, bits, nBitsCount, done, same, _, total, holds⟩
    · exact absurd (List.eq_of_mem_replicate member ▸ m.wordlist.word_mem small) notListed
    · rw [List.length_replicate, List.length_nil] at total
      have count := congrArg List.length same
      rw [List.length_replicate, List.length_map] at count
      have size := congrArg List.length holds
      rw [BitString.length_ofBytes, List.length_append, List.length_append, BitString.length_ofWords, ← count, List.length_nil,
        List.length_replicate] at size
      rw [putAll_append done, putAll, putWord_listed small]
      have stop : setBit bits nBitsCount = .error .outOfRange := by
        have eight : (8 : UInt32).toNat = 8 := rfl
        rw [setBit, UInt32.toNat_div, total, eight, if_neg (by omega)]
      rw [putBits, if_pos (by decide), stop]
  have whole : List.replicate (24 + (rest + 1)) (m.wordlist.word 2047) =
      List.replicate 24 (m.wordlist.word 2047) ++ m.wordlist.word 2047 :: List.replicate rest (m.wordlist.word 2047) := by
    rw [← List.replicate_succ, List.replicate_append_replicate]
  unfold check
  rw [if_neg (by rwa [List.isEmpty_iff])]
  dsimp only
  rw [number, if_neg (by decide), putWords_eq, words, whole, past]

end CMnemonic

/-- What is asked of a phrase that is generated: it has 24 words, the check accepts it, and another chain that is given it has the same seed
and id. -/
def CHDChain.Restores (m : CMnemonic) (f : KeyFunctions) (chain : CHDChain) (ssMnemonicPassphrase random : valtype) : Prop :=
  ∃ set, chain.updateMnemonic m f [] ssMnemonicPassphrase random = .ok (set, true) ∧
    (wordsOf set.vchMnemonic).length = 24 ∧ m.check set.vchMnemonic = some true ∧
    ∀ (other : CHDChain) (random' : valtype), other.isNull = true →
      ∃ restored, other.updateMnemonic m f set.vchMnemonic ssMnemonicPassphrase random' = .ok (restored, true) ∧
        restored.vchSeed = set.vchSeed ∧ restored.id = set.id

theorem CHDChain.updateMnemonic_empty {chain : CHDChain} (null : chain.isNull = true) (m : CMnemonic) (f : KeyFunctions)
    (ssMnemonicPassphrase random : valtype) :
    chain.updateMnemonic m f [] ssMnemonicPassphrase random = .error (.invalidMnemonic []) := by
  unfold updateMnemonic
  rw [null]
  rfl

theorem CHDChain.updateMnemonic_phrase {chain : CHDChain} (null : chain.isNull = true) (f : KeyFunctions)
    (phrase : m.IsPhrase mnemonic) (ssMnemonicPassphrase random : valtype) :
    ∃ set, chain.updateMnemonic m f mnemonic ssMnemonicPassphrase random = .ok (set, !set.isNull) ∧ set.vchMnemonic = mnemonic ∧
      set.vchSeed = m.toSeed mnemonic ssMnemonicPassphrase ∧ set.id = f.seedHash (m.toSeed mnemonic ssMnemonicPassphrase) := by
  obtain ⟨len, nWordCount, data, sizes, size, isJoin⟩ := phrase.sizes
  obtain ⟨_, _, _, _, _, _, count⟩ := m.phrase_spec sizes size
  rw [← isJoin] at count
  have known := sizes.known
  obtain ⟨accepted, checked, exact⟩ := m.check_exact mnemonic (by omega)
  rw [exact.mpr phrase] at checked
  refine ⟨{ chain with
    id := f.seedHash (m.toSeed mnemonic ssMnemonicPassphrase)
    vchSeed := m.toSeed mnemonic ssMnemonicPassphrase
    vchMnemonic := mnemonic
    vchMnemonicPassphrase := ssMnemonicPassphrase }, ?_, rfl, rfl, rfl⟩
  unfold updateMnemonic
  simp only [null, mnemonicVariables, checked, Bool.not_true, Bool.false_eq_true, if_false]
  rfl

def letterPair (k : Nat) : valtype := [UInt8.ofNat (33 + k / 64), UInt8.ofNat (33 + k % 64)]

theorem letterPair_toNat (small : k < 2048) : (letterPair k).map UInt8.toNat = [33 + k / 64, 33 + k % 64] := by
  simp only [letterPair, List.map_cons, List.map_nil, UInt8.toNat_ofNat']
  rw [Nat.mod_eq_of_lt (by omega), Nat.mod_eq_of_lt (by omega)]

def letterPairs : WordList where
  words := (List.range 2048).map letterPair
  size := by rw [List.length_map, List.length_range]
  nodup := by
    apply List.Nodup.map_on _ List.nodup_range
    intro k first l last same
    have numbers := congrArg (List.map UInt8.toNat) same
    rw [letterPair_toNat (List.mem_range.mp first), letterPair_toNat (List.mem_range.mp last)] at numbers
    simp only [List.cons.injEq, and_true] at numbers
    omega
  letters := by
    intro word member
    obtain ⟨k, first, rfl⟩ := List.mem_map.mp member
    have size : (letterPair k).length = 2 := rfl
    refine ⟨List.cons_ne_nil _ _, by omega, fun space => ?_⟩
    have number := List.mem_map_of_mem (f := UInt8.toNat) space
    rw [letterPair_toNat (List.mem_range.mp first)] at number
    have space : (32 : UInt8).toNat = 32 := rfl
    rw [space] at number
    simp only [List.mem_cons, List.not_mem_nil, or_false] at number
    omega

def pairMnemonic : CMnemonic where
  wordlist := letterPairs
  sha256 _ := List.replicate 32 0
  sha256_size _ := List.length_replicate
  pbkdf2 _ _ := List.replicate 64 0
  pbkdf2_size _ _ := List.length_replicate

def seedKeys : KeyFunctions where
  check _ := true
  getPubKey _ := []
  getID _ := .filled 0
  getHash _ := 0
  seedHash _ := 1
  setMaster _ := ⟨0, 0, {}⟩
  deriveKey _ _ := ({}, 0)
  extCoinType := 0

/-- No phrase that is generated restores a wallet. -/
theorem CHDChain.generated_never_restores (m : CMnemonic) (f : KeyFunctions) :
    (∀ (chain : CHDChain) (ssMnemonicPassphrase random : valtype), ¬ chain.Restores m f ssMnemonicPassphrase random) ∧
    ∀ mnemonic : valtype, mnemonic.count 32 < 2 ^ 32 →
      ∃ accepted, m.check mnemonic = some accepted ∧ (accepted = true ↔ m.IsPhrase mnemonic) := by
  refine ⟨?_, fun mnemonic counted => m.check_exact mnemonic counted⟩
  rintro chain ssMnemonicPassphrase random ⟨set, made, -⟩
  by_cases null : chain.isNull = true
  · rw [updateMnemonic_empty null] at made
    exact nomatch made
  · unfold updateMnemonic at made
    rw [Bool.eq_false_iff.mpr null] at made
    exact Bool.false_ne_true (Prod.mk.inj (Except.ok.inj made)).2

def zeroPhrase : valtype := join [32] (pairMnemonic.fromData (List.replicate 16 0) 16)

theorem CHDChain.twelve_words_accepted : (wordsOf zeroPhrase).length = 12 ∧ pairMnemonic.check zeroPhrase = some true := by
  obtain ⟨_, words, length, _, _, whole, spaces⟩ := pairMnemonic.phrase_spec (show CMnemonic.PhraseSize 16 12 from ⟨by omega⟩)
    (show (List.replicate 16 (0 : UInt8)).length = 16 from rfl)
  have phrase : pairMnemonic.IsPhrase zeroPhrase := ⟨List.replicate 16 0, Or.inl rfl, rfl⟩
  have count : zeroPhrase.count 32 < 2 ^ 32 := by
    unfold zeroPhrase
    omega
  obtain ⟨accepted, checked, exact⟩ := (CHDChain.generated_never_restores pairMnemonic seedKeys).2 zeroPhrase count
  rw [exact.mpr phrase] at checked
  refine ⟨?_, checked⟩
  rw [zeroPhrase, whole, words, List.length_map, length]

theorem CHDChain.zero_bytes_refused : ¬ ∀ (m : CMnemonic) (f : KeyFunctions) (chain : CHDChain) (ssMnemonicPassphrase random : valtype),
    random.length = 32 → chain.isNull = true → chain.Restores m f ssMnemonicPassphrase random := by
  intro restores
  obtain ⟨set, made, -⟩ := restores pairMnemonic seedKeys {} [] (List.replicate 32 0) List.length_replicate rfl
  rw [updateMnemonic_empty rfl] at made
  exact nomatch made

end SchillingCoin
