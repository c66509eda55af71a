import SchillingCoin.Lib.Decimal
import SchillingCoin.Masternode.MasternodeMan

/-!
Addresses as text, after `CService::ToString` of `netbase.cpp` and `EncodeBase32` of `utilstrencodings.cpp`.
-/

namespace SchillingCoin

open Decimal

def pbase32 (i : Nat) : UInt8 := UInt8.ofNat (if i < 26 then 97 + i else 24 + i)

def nPadding (mode : Nat) : Nat := [0, 6, 4, 3, 1].getD mode 0

/-- The loop of `EncodeBase32`. The mode says how many bits are left over from the byte before. -/
def encodeBase32From (mode left : Nat) : List UInt8 → List UInt8
  | [] => if mode = 0 then [] else pbase32 left :: List.replicate (nPadding mode) 0x3d
  | pch :: rest =>
    let enc := pch.toNat
    match mode with
    | 0 => pbase32 (enc >>> 3) :: encodeBase32From 1 ((enc &&& 7) <<< 2) rest
    | 1 => pbase32 (left ||| enc >>> 6) :: pbase32 (enc >>> 1 &&& 31) :: encodeBase32From 2 ((enc &&& 1) <<< 4) rest
    | 2 => pbase32 (left ||| enc >>> 4) :: encodeBase32From 3 ((enc &&& 15) <<< 1) rest
    | 3 => pbase32 (left ||| enc >>> 7) :: pbase32 (enc >>> 2 &&& 31) :: encodeBase32From 4 ((enc &&& 3) <<< 3) rest
    | _ => pbase32 (left ||| enc >>> 5) :: pbase32 (enc &&& 31) :: encodeBase32From 0 left rest

def encodeBase32 (bytes : List UInt8) : List UInt8 := encodeBase32From 0 0 bytes

theorem pbase32_toNat (small : i < 32) : (pbase32 i).toNat = if i < 26 then 97 + i else 24 + i := by
  rw [pbase32, UInt8.toNat_ofNat']
  split <;> omega

theorem pbase32_inj (low : i < 32) (low' : j < 32) (same : pbase32 i = pbase32 j) : i = j := by
  have codes := congrArg UInt8.toNat same
  rw [pbase32_toNat low, pbase32_toNat low'] at codes
  split at codes <;> split at codes <;> omega

/-- In a mode whose left over bits stand above `s` bits to come, the text gives these bits and the bytes. -/
def Recovers (mode s n : Nat) : Prop :=
  ∀ {x x' : Nat} {a b : List UInt8}, x < 2 ^ (5 - s) → x' < 2 ^ (5 - s) → a.length = n → b.length = n →
    encodeBase32From mode (x <<< s) a = encodeBase32From mode (x' <<< s) b → x = x' ∧ a = b

theorem below_32 (small : s ≤ 5) (bits : x < 2 ^ (5 - s)) (low : y < 2 ^ s) : x * 2 ^ s + y < 32 := by
  calc x * 2 ^ s + y < (x + 1) * 2 ^ s := by rw [Nat.add_mul, Nat.one_mul]; exact Nat.add_lt_add_left low _
    _ ≤ 2 ^ (5 - s) * 2 ^ s := Nat.mul_le_mul_right _ bits
    _ = 32 := by rw [← Nat.pow_add, Nat.sub_add_cancel small]

theorem joined_inj (small : s ≤ 5) (bits : x < 2 ^ (5 - s)) (bits' : x' < 2 ^ (5 - s)) (low : e < 2 ^ 8) (low' : e' < 2 ^ 8)
    (same : pbase32 (x <<< s ||| e >>> (8 - s)) = pbase32 (x' <<< s ||| e' >>> (8 - s))) :
    x = x' ∧ e / 2 ^ (8 - s) = e' / 2 ^ (8 - s) := by
  have top : ∀ y < 2 ^ 8, y / 2 ^ (8 - s) < 2 ^ s := by
    intro y low
    apply Nat.div_lt_of_lt_mul
    rw [← Nat.pow_add, Nat.sub_add_cancel (by omega)]
    exact low
  have power : 0 < 2 ^ s := by positivity
  rw [Nat.shiftRight_eq_div_pow, Nat.shiftRight_eq_div_pow, ← Nat.shiftLeft_add_eq_or_of_lt (top e low),
    ← Nat.shiftLeft_add_eq_or_of_lt (top e' low'), Nat.shiftLeft_eq, Nat.shiftLeft_eq] at same
  have sum := pbase32_inj (below_32 small bits (top e low)) (below_32 small bits' (top e' low')) same
  have quotient := congrArg (· / 2 ^ s) sum
  rw [Nat.mul_comm x, Nat.mul_comm x', Nat.mul_add_div power, Nat.mul_add_div power, Nat.div_eq_of_lt (top e low),
    Nat.div_eq_of_lt (top e' low'), Nat.add_zero, Nat.add_zero] at quotient
  subst quotient
  exact ⟨rfl, Nat.add_left_cancel sum⟩

theorem Recovers.nil (nonzero : mode ≠ 0) (small : s ≤ 5) : Recovers mode s 0 := by
  intro x x' a b bits bits' none_ none_' same
  rw [List.eq_nil_of_length_eq_zero none_, List.eq_nil_of_length_eq_zero none_'] at same ⊢
  rw [encodeBase32From, encodeBase32From, if_neg nonzero, if_neg nonzero, Nat.shiftLeft_eq, Nat.shiftLeft_eq] at same
  have power : 0 < 2 ^ s := by positivity
  have shifted := pbase32_inj (below_32 small bits power) (below_32 small bits' power) (List.cons.inj same).1
  exact ⟨Nat.eq_of_mul_eq_mul_right power shifted, rfl⟩

theorem Recovers.cons (u : Nat) (middle : Nat → List UInt8) (next : Recovers mode' (5 - u) n) (small : s ≤ 5) (few : u ≤ 5)
    (lengths : ∀ e e', (middle e).length = (middle e').length)
    (whole : ∀ e < 2 ^ 8, ∀ e' < 2 ^ 8, e / 2 ^ (8 - s) = e' / 2 ^ (8 - s) → middle e = middle e' → e % 2 ^ u = e' % 2 ^ u → e = e')
    (step : ∀ x (e : UInt8) rest, x < 2 ^ (5 - s) → encodeBase32From mode (x <<< s) (e :: rest) = pbase32 (x <<< s ||| e.toNat >>> (8 - s)) :: (middle e.toNat ++ encodeBase32From mode' ((e.toNat % 2 ^ u) <<< (5 - u)) rest)) :
    Recovers mode s (n + 1) := by
  intro x x' a b bits bits' length length' same
  obtain ⟨e, rest, rfl⟩ := List.exists_cons_of_length_eq_add_one length
  obtain ⟨e', rest', rfl⟩ := List.exists_cons_of_length_eq_add_one length'
  rw [step x e rest bits, step x' e' rest' bits'] at same
  obtain ⟨first, same⟩ := List.cons.inj same
  obtain ⟨second, same⟩ := List.append_inj same (lengths _ _)
  obtain ⟨left, top⟩ := joined_inj small bits bits' e.toNat_lt e'.toNat_lt first
  have bound : 2 ^ (5 - (5 - u)) = 2 ^ u := by rw [Nat.sub_sub_self few]
  have rest_low : ∀ y, y % 2 ^ u < 2 ^ (5 - (5 - u)) := fun y => by
    rw [bound]
    exact Nat.mod_lt _ (by positivity)
  obtain ⟨low, others⟩ := next (rest_low _) (rest_low _) (Nat.succ.inj length) (Nat.succ.inj length') same
  have byte := UInt8.toNat_inj.mp (whole _ e.toNat_lt _ e'.toNat_lt top second low)
  exact ⟨left, by rw [byte, others]⟩

theorem encodeBase32From_zero (l : Nat) (a : List UInt8) : encodeBase32From 0 l a = encodeBase32From 0 0 a := by
  cases a <;> rfl

variable (n : Nat)

theorem recovers : Recovers 0 5 n ∧ Recovers 1 2 n ∧ Recovers 2 4 n ∧ Recovers 3 1 n ∧ Recovers 4 3 n := by
  induction n with
  | zero =>
    refine ⟨?_, Recovers.nil (by omega) (by omega), Recovers.nil (by omega) (by omega), Recovers.nil (by omega) (by omega),
      Recovers.nil (by omega) (by omega)⟩
    intro x x' a b bits bits' none_ none_' _
    rw [List.eq_nil_of_length_eq_zero none_, List.eq_nil_of_length_eq_zero none_']
    exact ⟨by omega, rfl⟩
  | succ n ih =>
    obtain ⟨ih0, ih1, ih2, ih3, ih4⟩ := ih
    have and1 : ∀ k, k &&& 1 = k % 2 ^ 1 := fun k => Nat.and_two_pow_sub_one_eq_mod k 1
    have and3 : ∀ k, k &&& 3 = k % 2 ^ 2 := fun k => Nat.and_two_pow_sub_one_eq_mod k 2
    have and7 : ∀ k, k &&& 7 = k % 2 ^ 3 := fun k => Nat.and_two_pow_sub_one_eq_mod k 3
    have and15 : ∀ k, k &&& 15 = k % 2 ^ 4 := fun k => Nat.and_two_pow_sub_one_eq_mod k 4
    have and31 : ∀ k, k &&& 31 = k % 2 ^ 5 := fun k => Nat.and_two_pow_sub_one_eq_mod k 5
    have symbols : ∀ y y', [pbase32 (y % 2 ^ 5)] = [pbase32 (y' % 2 ^ 5)] → y % 2 ^ 5 = y' % 2 ^ 5 := fun y y' same =>
      pbase32_inj (Nat.mod_lt _ (by omega)) (Nat.mod_lt _ (by omega)) (List.cons.inj same).1
    refine ⟨?_, ?_, ?_, ?_, ?_⟩
    · refine Recovers.cons 3 (fun _ => []) ih1 (by omega) (by omega) (fun _ _ => rfl) (fun e _ e' _ top _ low => by omega) ?_
      intro x e rest bits
      obtain rfl : x = 0 := by omega
      rw [encodeBase32From, and7, Nat.zero_shiftLeft, Nat.zero_or]
      rfl
    · refine Recovers.cons 1 (fun e => [pbase32 (e / 2 % 2 ^ 5)]) ih2 (by omega) (by omega) (fun _ _ => rfl) ?_ ?_
      · intro e _ e' _ top second low
        have middle := symbols _ _ second
        omega
      · intro x e rest _
        rw [encodeBase32From, and1, and31, Nat.shiftRight_one]
        rfl
    · refine Recovers.cons 4 (fun _ => []) ih3 (by omega) (by omega) (fun _ _ => rfl) (fun e _ e' _ top _ low => by omega) ?_
      intro x e rest _
      rw [encodeBase32From, and15]
      rfl
    · refine Recovers.cons 2 (fun e => [pbase32 (e / 2 ^ 2 % 2 ^ 5)]) ih4 (by omega) (by omega) (fun _ _ => rfl) ?_ ?_
      · intro e _ e' _ top second low
        have middle := symbols _ _ second
        omega
      · intro x e rest _
        rw [encodeBase32From, and3, and31, Nat.shiftRight_eq_div_pow _ 2]
        rfl
    · refine Recovers.cons 0 (fun e => [pbase32 (e % 2 ^ 5)]) ih0 (by omega) (by omega) (fun _ _ => rfl) ?_ ?_
      · intro e _ e' _ top second low
        have middle := symbols _ _ second
        omega
      · intro x e rest _
        have last : encodeBase32From 4 (x <<< 3) (e :: rest) = pbase32 (x <<< 3 ||| e.toNat >>> 5) :: pbase32 (e.toNat &&& 31) ::
            encodeBase32From 0 (x <<< 3) rest := rfl
        rw [last, and31, encodeBase32From_zero, Nat.pow_zero, Nat.mod_one, Nat.zero_shiftLeft]
        rfl

theorem encodeBase32_inj (length : a.length = b.length) (same : encodeBase32 a = encodeBase32 b) : a = b := by
  have start : ∀ l : List UInt8, encodeBase32From 0 (0 <<< 5) l = encodeBase32 l := fun _ => rfl
  rw [← start, ← start] at same
  exact ((recovers b.length).1 (by omega) (by omega) length rfl same).2

def PlainSymbol (c : UInt8) : Prop := c ≠ 0x3a ∧ c ≠ 0x5b

theorem plain_pbase32 (small : i < 2 ^ 5) : PlainSymbol (pbase32 i) := by
  have code := pbase32_toNat small
  constructor
  all_goals
    intro same
    rw [same] at code
    simp only [UInt8.reduceToNat] at code
    split at code <;> omega

theorem encodeBase32From_plain (small : left < 2 ^ 5) : ∀ c ∈ encodeBase32From mode left bytes, PlainSymbol c := by
  induction bytes generalizing mode left with
  | nil =>
    intro c member
    rw [encodeBase32From] at member
    split at member
    · cases member
    · rcases List.mem_cons.mp member with rfl | padding
      · exact plain_pbase32 small
      · rw [List.eq_of_mem_replicate padding]
        exact ⟨by decide, by decide⟩
  | cons pch rest ih =>
    have low := pch.toNat_lt
    have top : ∀ k, 3 ≤ k → pch.toNat >>> k < 2 ^ 5 := fun k big => by
      rw [Nat.shiftRight_eq_div_pow]
      apply Nat.div_lt_of_lt_mul
      calc pch.toNat < 2 ^ 8 := low
        _ ≤ 2 ^ (k + 5) := Nat.pow_le_pow_right (by omega) (by omega)
        _ = 2 ^ k * 2 ^ 5 := Nat.pow_add 2 k 5
    have both : ∀ k, 3 ≤ k → left ||| pch.toNat >>> k < 2 ^ 5 := fun k big => Nat.or_lt_two_pow small (top k big)
    have masked : ∀ n, n &&& 31 < 2 ^ 5 := fun n => Nat.lt_succ_of_le Nat.and_le_right
    have kept : ∀ n m k, m <<< k < 2 ^ 5 → (n &&& m) <<< k < 2 ^ 5 := fun n m k fits => by
      rw [Nat.shiftLeft_eq] at fits ⊢
      exact Nat.lt_of_le_of_lt (Nat.mul_le_mul_right _ Nat.and_le_right) fits
    have one : ∀ {i : Nat} {others : List UInt8}, i < 2 ^ 5 → (∀ c ∈ others, PlainSymbol c) →
        ∀ c ∈ pbase32 i :: others, PlainSymbol c := by
      intro i others inside plain c member
      rcases List.mem_cons.mp member with rfl | member
      · exact plain_pbase32 inside
      · exact plain c member
    rcases mode with _ | _ | _ | _ | mode
    · exact one (top 3 (by omega)) (ih (kept _ 7 2 (by decide)))
    · exact one (both 6 (by omega)) (one (masked _) (ih (kept _ 1 4 (by decide))))
    · exact one (both 4 (by omega)) (ih (kept _ 15 1 (by decide)))
    · exact one (both 7 (by omega)) (one (masked _) (ih (kept _ 3 3 (by decide))))
    · exact one (both 5 (by omega)) (one (masked _) (ih small))

def hexNumeral : List UInt8 := (Nat.toDigits 16 n).map fun c => UInt8.ofNat c.toNat

namespace CService

def pchIPv4 : List UInt8 := [0, 0, 0, 0, 0, 0, 0, 0, 0, 0, 0xff, 0xff]

def pchOnionCat : List UInt8 := [0xfd, 0x87, 0xd8, 0x7e, 0xeb, 0x43]

variable (addr : CService) (getnameinfo : List UInt8 → Option (List UInt8))

def isIPv4 : Bool := addr.ip.take 12 == pchIPv4

def isTor : Bool := addr.ip.take 6 == pchOnionCat

def getByte (n : Nat) : Nat := (addr.ip.getD (15 - n) 0).toNat

def joinWith (separator : UInt8) (parts : List (List UInt8)) : List UInt8 := (parts.intersperse [separator]).flatten

/-- What `ToStringIP` does where `getnameinfo` gives nothing. -/
def fallbackIP : List UInt8 :=
  if addr.isIPv4 then joinWith 0x2e ([3, 2, 1, 0].map fun n => numeral (addr.getByte n))
  else joinWith 0x3a ([15, 13, 11, 9, 7, 5, 3, 1].map fun n => hexNumeral (addr.getByte n <<< 8 ||| addr.getByte (n - 1)))

def numericHost (addr : CService) : List UInt8 :=
  (getnameinfo addr.ip).getD addr.fallbackIP

def toStringIP (addr : CService) : List UInt8 :=
  if addr.isTor then encodeBase32 ((addr.ip.drop 6).take 10) ++ [0x2e, 0x6f, 0x6e, 0x69, 0x6f, 0x6e] else addr.numericHost getnameinfo

def toString (addr : CService) : List UInt8 :=
  if addr.isIPv4 || addr.isTor then addr.toStringIP getnameinfo ++ [0x3a] ++ numeral addr.port
  else [0x5b] ++ addr.toStringIP getnameinfo ++ [0x5d, 0x3a] ++ numeral addr.port

/-- What is relied on for two addresses: numeric forms tell them apart, that of an IPv4 address consists of digits and dots, and no
form has a closing bracket. -/
structure NumericForms (getnameinfo : List UInt8 → Option (List UInt8)) (addr addr' : CService) : Prop where
  apart : addr.isTor = false → addr'.isTor = false → addr.numericHost getnameinfo = addr'.numericHost getnameinfo → addr.ip = addr'.ip
  dotted : ∀ a ∈ [addr, addr'], a.isIPv4 = true → ∀ c ∈ a.numericHost getnameinfo, IsDigit c ∨ c = 0x2e
  unbracketed : ∀ a ∈ [addr, addr'], 0x5d ∉ a.numericHost getnameinfo

variable {getnameinfo : List UInt8 → Option (List UInt8)} {addr addr' : CService}

theorem ip_of_tor (tor : addr.isTor = true) (sixteen : addr.ip.length = 16) : addr.ip = pchOnionCat ++ (addr.ip.drop 6).take 10 := by
  have front : addr.ip.take 6 = pchOnionCat := eq_of_beq tor
  have back : (addr.ip.drop 6).take 10 = addr.ip.drop 6 := List.take_of_length_le (by rw [List.length_drop, sixteen])
  rw [back, ← front, List.take_append_drop]

theorem plain_toStringIP (forms : ∀ c ∈ addr.numericHost getnameinfo, addr.isIPv4 = true → IsDigit c ∨ c = 0x2e)
    (short : addr.isIPv4 = true ∨ addr.isTor = true) : ∀ c ∈ addr.toStringIP getnameinfo, PlainSymbol c := by
  intro c member
  unfold toStringIP at member
  split at member
  · rcases List.mem_append.mp member with symbol | suffix
    · exact encodeBase32From_plain (by decide) c symbol
    · have plain : ∀ c ∈ [0x2e, 0x6f, 0x6e, 0x69, 0x6f, 0x6e], PlainSymbol c := by simp [PlainSymbol]
      exact plain c suffix
  · next notTor =>
    rcases forms c member (short.resolve_right notTor) with digit | rfl
    · constructor <;> rintro rfl <;> exact absurd digit (by decide)
    · exact ⟨by decide, by decide⟩

theorem toStringIP_inj (forms : NumericForms getnameinfo addr addr') (sixteen : addr.ip.length = 16) (sixteen' : addr'.ip.length = 16)
    (short : addr.isTor = true → addr'.isIPv4 = true ∨ addr'.isTor = true)
    (short' : addr'.isTor = true → addr.isIPv4 = true ∨ addr.isTor = true)
    (same : addr.toStringIP getnameinfo = addr'.toStringIP getnameinfo) : addr.ip = addr'.ip := by
  unfold toStringIP at same
  have onion : ∀ {front : List UInt8} {a : CService}, a ∈ [addr, addr'] → a.isIPv4 = true →
      front ++ [0x2e, 0x6f, 0x6e, 0x69, 0x6f, 0x6e] ≠ a.numericHost getnameinfo := by
    intro front a member version equal
    rcases forms.dotted a member version 0x6f (equal ▸ by simp) with digit | dot
    · exact absurd digit (by decide)
    · exact absurd dot (by decide)
  by_cases tor : addr.isTor = true
  · by_cases tor' : addr'.isTor = true
    · rw [if_pos tor, if_pos tor'] at same
      have bytes := encodeBase32_inj (by simp [sixteen, sixteen']) (List.append_cancel_right same)
      rw [ip_of_tor tor sixteen, ip_of_tor tor' sixteen', bytes]
    · rw [if_pos tor, if_neg tor'] at same
      exact absurd same (onion (by simp) ((short tor).resolve_right tor'))
  · by_cases tor' : addr'.isTor = true
    · rw [if_neg tor, if_pos tor'] at same
      exact absurd same.symm (onion (by simp) ((short' tor').resolve_right tor))
    · rw [if_neg tor, if_neg tor'] at same
      exact forms.apart (Bool.eq_false_iff.mpr tor) (Bool.eq_false_iff.mpr tor') same

theorem unlike (plain : ∀ c ∈ text, PlainSymbol c) : text ++ ([0x3a] ++ after) ≠ [0x5b] ++ after' := by
  cases text with
  | nil => exact fun same => absurd (List.cons.inj same).1 (by decide)
  | cons c text => exact fun same => (plain c List.mem_cons_self).2 (List.cons.inj same).1

theorem toString_append_inj (forms : NumericForms getnameinfo addr addr') (sixteen : addr.ip.length = 16)
    (sixteen' : addr'.ip.length = 16) (same : addr.toString getnameinfo ++ rest = addr'.toString getnameinfo ++ rest') :
    addr.ip = addr'.ip ∧ numeral addr.port ++ rest = numeral addr'.port ++ rest' := by
  have plain : ∀ a ∈ [addr, addr'], (a.isIPv4 || a.isTor) = true → ∀ c ∈ a.toStringIP getnameinfo, PlainSymbol c := fun a member short =>
    plain_toStringIP (fun c found version => forms.dotted a member version c found) (by simpa using short)
  unfold toString at same
  by_cases short : (addr.isIPv4 || addr.isTor) = true
  · by_cases short' : (addr'.isIPv4 || addr'.isTor) = true
    · rw [if_pos short, if_pos short'] at same
      simp only [List.append_assoc] at same
      obtain ⟨text, others⟩ := append_inj_of_class (plain addr (by simp) short) (plain addr' (by simp) short') ⟨0x3a, rfl, by simp [PlainSymbol]⟩
        ⟨0x3a, rfl, by simp [PlainSymbol]⟩ same
      exact ⟨toStringIP_inj forms sixteen sixteen' (fun _ => by simpa using short') (fun _ => by simpa using short) text,
        List.append_cancel_left others⟩
    · rw [if_pos short, if_neg short'] at same
      simp only [List.append_assoc] at same
      exact absurd same (unlike (plain addr (by simp) short))
  · by_cases short' : (addr'.isIPv4 || addr'.isTor) = true
    · rw [if_neg short, if_pos short'] at same
      simp only [List.append_assoc] at same
      exact absurd same.symm (unlike (plain addr' (by simp) short'))
    · rw [if_neg short, if_neg short'] at same
      simp only [List.append_assoc] at same
      replace same := List.append_cancel_left same
      have notTor : addr.isTor = false := by simp_all
      have notTor' : addr'.isTor = false := by simp_all
      rw [toStringIP, toStringIP, if_neg (by simp [notTor]), if_neg (by simp [notTor'])] at same
      have inside : ∀ a ∈ [addr, addr'], ∀ c ∈ a.numericHost getnameinfo, c ≠ 0x5d := fun a member c found bracket =>
        forms.unbracketed a member (bracket ▸ found)
      obtain ⟨text, others⟩ := append_inj_of_class (inside addr (by simp)) (inside addr' (by simp)) ⟨0x5d, rfl, by simp⟩
        ⟨0x5d, rfl, by simp⟩ same
      exact ⟨forms.apart notTor notTor' text, List.append_cancel_left others⟩

theorem toString_of_ip (getnameinfo : List UInt8 → Option (List UInt8)) (same : addr.ip = addr'.ip) :
    ∃ front, addr.toString getnameinfo = front ++ numeral addr.port ∧ addr'.toString getnameinfo = front ++ numeral addr'.port := by
  obtain ⟨ip, port⟩ := addr
  obtain ⟨ip', port'⟩ := addr'
  obtain rfl : ip = ip' := same
  by_cases short : (isIPv4 ⟨ip, port⟩ || isTor ⟨ip, port⟩) = true
  · exact ⟨toStringIP getnameinfo ⟨ip, port⟩ ++ [0x3a], if_pos short, if_pos short⟩
  · exact ⟨[0x5b] ++ toStringIP getnameinfo ⟨ip, port⟩ ++ [0x5d, 0x3a], if_neg short, if_neg short⟩

end CService

end SchillingCoin
