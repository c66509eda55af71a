import SchillingCoin.Primitives.Base58
import SchillingCoin.Primitives.Transaction

/-!
`EncodeBase58Check` and `DecodeBase58Check` in `base58.cpp`, where four bytes of a hash follow the data, and the texts that
`EncodeBase58` writes: every text without blanks that `DecodeBase58` accepts is one of them. `Hash` is a parameter.
-/

namespace SchillingCoin

open Codec

namespace Base58

variable (Hash : List UInt8 → uint256) (vch : List UInt8)

def checksum : List UInt8 := (leBytes 32 (Hash vch).toNat).take 4

def encodeBase58Check (vchIn : List UInt8) : Option (List UInt8) :=
  encodeBase58 (vchIn ++ checksum Hash vchIn)

/-- Where it is refused the vector is left empty. -/
def decodeBase58Check (psz : List UInt8) : Except DecodeFailure (List UInt8) :=
  match decodeBase58 psz with
  | .error e => .error e
  | .ok vchRet =>
    if vchRet.length < 4 then .error .invalid
    else if checksum Hash (vchRet.take (vchRet.length - 4)) ≠ vchRet.drop (vchRet.length - 4) then .error .invalid
    else .ok (vchRet.take (vchRet.length - 4))

theorem symbol_digitOf (found : digitOf c = some d) : symbol d = c := by
  obtain ⟨inside, place⟩ := symbol_mem (digitOf_lt found)
  unfold digitOf at found
  split at found
  · obtain rfl := Option.some.inj found
    rw [place]
    exact List.getElem_idxOf inside
  · exact nomatch found

theorem decodeLoop_ok (solid : ∀ c ∈ psz, isspace c = false) (done : decodeLoop psz b256 = .ok (result, tail)) :
    tail = [] ∧ ∃ numeral, (∀ d ∈ numeral, d < 58) ∧ psz = numeral.map symbol ∧ Radix.convert 256 58 numeral b256 = some result := by
  induction psz generalizing b256 with
  | nil =>
    obtain ⟨rfl, rfl⟩ := Prod.mk.inj (Except.ok.inj done)
    exact ⟨rfl, [], (fun _ member => by cases member), rfl, rfl⟩
  | cons c psz ih =>
    rw [decodeLoop, solid c List.mem_cons_self] at done
    simp only [Bool.false_eq_true, if_false] at done
    split at done
    · cases done
    · next ch found =>
      split at done
      · next none =>
        obtain ⟨isEnd, numeral, small, isText, converted⟩ := ih (fun c' member => solid c' (List.mem_cons_of_mem _ member)) done
        refine ⟨isEnd, ch :: numeral, ?_, ?_, ?_⟩
        · intro d member
          rcases List.mem_cons.mp member with isFirst | later
          · rw [isFirst]
            exact digitOf_lt found
          · exact small d later
        · rw [List.map_cons, symbol_digitOf found, ← isText]
        · rw [Radix.convert, if_pos none]
          exact converted
      · cases done

theorem decodeBase58_ok (solid : ∀ c ∈ text, isspace c = false) (done : decodeBase58 text = .ok bytes) :
    ∃ zeroes numeral, (∀ d ∈ numeral, d < 58) ∧ (∀ d ∈ numeral.head?, d ≠ 0) ∧
      text = List.replicate zeroes (symbol 0) ++ numeral.map symbol ∧
      bytes = List.replicate zeroes 0 ++ (Nat.digits 256 (Radix.valueFrom 58 0 numeral)).reverse.map UInt8.ofNat := by
  have front : text.dropWhile isspace = text := dropWhile_isspace fun c isHead => solid c (List.mem_of_mem_head? isHead)
  unfold decodeBase58 at done
  simp only [front] at done
  split at done
  · exact nomatch done
  · next decoded loop =>
    have rest : ∀ c ∈ text.dropWhile (fun c => c = symbol 0), isspace c = false :=
      fun c member => solid c ((List.dropWhile_suffix _).subset member)
    obtain ⟨isEnd, numeral, small, isText, converted⟩ := decodeLoop_ok rest loop
    have length : (text.dropWhile fun c => c = symbol 0).length = numeral.length := by rw [isText, List.length_map]
    obtain ⟨result, converted', inBytes, value⟩ := convert_zeros 256 58 (by decide) (by decide) (decode_room (Radix.valueFrom_lt small))
    rw [length, converted'] at converted
    obtain rfl := Option.some.inj converted
    rw [finishDecode, isEnd, if_neg (by simp), Radix.stripped_eq_digits (by decide) inBytes, value] at done
    refine ⟨_, numeral, small, ?_, ?_, (Except.ok.inj done).symm⟩
    · intro d isHead zero
      -- the ones have been counted
      have first := List.head?_dropWhile_not (fun c : UInt8 => decide (c = symbol 0)) text
      rw [isText, List.head?_map, Option.mem_def.mp isHead, zero] at first
      simp at first
    · have ones : text.takeWhile (fun c => c = symbol 0) = List.replicate (text.takeWhile fun c => c = symbol 0).length (symbol 0) := by
        apply List.eq_replicate_of_mem
        intro c member
        simpa using List.mem_takeWhile_imp member
      rw [← ones, ← isText, List.takeWhile_append_dropWhile]

theorem encodeBase58_decodeBase58 (solid : ∀ c ∈ text, isspace c = false) (done : decodeBase58 text = .ok bytes) :
    encodeBase58 bytes = some text := by
  obtain ⟨zeroes, numeral, small, highest, isText, isBytes⟩ := decodeBase58_ok solid done
  generalize isValue : Radix.valueFrom 58 0 numeral = value at isBytes
  have inBytes : ∀ d ∈ (Nat.digits 256 value).reverse, d < 256 := fun d member => Nat.digits_lt_base (by decide) (List.mem_reverse.mp member)
  have back : ((Nat.digits 256 value).reverse.map UInt8.ofNat).map UInt8.toNat = (Nat.digits 256 value).reverse := by
    rw [List.map_map]
    conv_rhs => rw [← List.map_id (Nat.digits 256 value).reverse]
    apply List.map_congr_left
    intro d member
    have byte := inBytes d member
    show (UInt8.ofNat d).toNat = d
    rw [UInt8.toNat_ofNat']
    exact Nat.mod_eq_of_lt byte
  have head : ∀ b ∈ ((Nat.digits 256 value).reverse.map UInt8.ofNat).head?, b ≠ 0 := by
    intro b isHead isZero
    rw [List.head?_map, List.head?_reverse, Option.mem_def, Option.map_eq_some_iff] at isHead
    obtain ⟨d, isLast, isByte⟩ := isHead
    have nonempty : Nat.digits 256 value ≠ [] := fun empty => by
      rw [empty] at isLast
      exact nomatch isLast
    rw [List.getLast?_eq_some_getLast nonempty, Option.some_inj] at isLast
    have byte := inBytes d (List.mem_reverse.mpr (isLast ▸ List.getLast_mem nonempty))
    have nonzero := Nat.getLast_digit_ne_zero 256 (Nat.digits_ne_nil_iff_ne_zero.mp nonempty)
    rw [isLast] at nonzero
    have zero := congrArg UInt8.toNat (isByte.trans isZero)
    rw [UInt8.toNat_ofNat', UInt8.toNat_zero] at zero
    omega
  obtain ⟨zeros, rest⟩ := takeWhile_copies head zeroes
  have same : digits58 ((Nat.digits 256 value).reverse.map UInt8.ofNat) = numeral := by
    rw [digits58, back, Radix.valueFrom_eq_ofDigits, List.reverse_reverse, Nat.ofDigits_digits, ← isValue,
      Radix.digits_valueFrom (by decide) small highest]
  rw [encodeBase58_eq, isBytes, zeros, rest, List.length_replicate, same, isText]

theorem length_checksum : (checksum Hash vch).length = 4 := by
  rw [checksum, List.length_take, length_leBytes]
  rfl

theorem decodeBase58Check_encodeBase58Check :
    ∃ text, encodeBase58Check Hash vch = some text ∧ decodeBase58Check Hash text = .ok vch := by
  obtain ⟨text, encoded, decoded, _⟩ := decodeBase58_encodeBase58 (vch ++ checksum Hash vch)
  have length : (vch ++ checksum Hash vch).length = vch.length + 4 := by rw [List.length_append, length_checksum]
  refine ⟨text, encoded, ?_⟩
  unfold decodeBase58Check
  rw [decoded]
  dsimp only
  rw [length, if_neg (by omega), Nat.add_sub_cancel, List.take_left' rfl, List.drop_left' rfl, if_neg (fun other => other rfl)]

/-- Byte strings and texts without blanks that are accepted are taken to each other, no assertion fails, and data is read back behind its
checksum. -/
theorem base58_bijection (Hash : List UInt8 → uint256) :
    (∀ vch, ∃ text, encodeBase58 vch = some text ∧ decodeBase58 text = .ok vch) ∧
    (∀ text vch, text ≠ [] → (∀ c ∈ text, isspace c = false) → decodeBase58 text = .ok vch → encodeBase58 vch = some text) ∧
    (∀ text, decodeBase58 text ≠ .error .carry) ∧
    ∀ vch, ∃ text, encodeBase58Check Hash vch = some text ∧ decodeBase58Check Hash text = .ok vch := by
  refine ⟨?_, ?_, decodeBase58_safe, decodeBase58Check_encodeBase58Check Hash⟩
  · intro vch
    obtain ⟨text, encoded, decoded, _⟩ := decodeBase58_encodeBase58 vch
    exact ⟨text, encoded, decoded⟩
  · intro text vch _ solid decoded
    exact encodeBase58_decodeBase58 solid decoded

set_option maxRecDepth 2000 in
theorem base58_bijection_two : encodeBase58 [0, 1] = some [0x31, 0x32] :=
  (base58_bijection fun _ => 0).2.1 [0x31, 0x32] [0, 1] (by decide) (by decide) (by rfl)

end Base58

end SchillingCoin
