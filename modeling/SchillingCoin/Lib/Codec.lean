import Mathlib.Data.List.Basic
import Mathlib.Tactic.Ring

/-!
Readers of byte strings and the bytes that they read back: numbers in little-endian order, lists whose length is known, and
lists that are read a chunk at a time.
-/

namespace Codec

/-- The lowest `k` bytes of a number, the lowest first. -/
def leBytes : Nat → Nat → List UInt8
  | 0, _ => []
  | k + 1, n => UInt8.ofNat n :: leBytes k (n / 256)

def leValue : List UInt8 → Nat
  | [] => 0
  | b :: rest => b.toNat + 256 * leValue rest

@[simp] theorem length_leBytes (k n : Nat) : (leBytes k n).length = k := by
  induction k generalizing n with
  | zero => rfl
  | succ k ih => rw [leBytes, List.length_cons, ih]

theorem leValue_lt (bytes : List UInt8) : leValue bytes < 256 ^ bytes.length := by
  induction bytes with
  | nil => simp [leValue]
  | cons b rest ih =>
    have small := b.toNat_lt
    rw [leValue, List.length_cons, Nat.pow_succ]
    omega

theorem leValue_leBytes (k n : Nat) : leValue (leBytes k n) = n % 256 ^ k := by
  induction k generalizing n with
  | zero => simp [leBytes, leValue, Nat.mod_one]
  | succ k ih =>
    rw [leBytes, leValue, ih, Nat.pow_succ, Nat.mul_comm (256 ^ k) 256, Nat.mod_mul, UInt8.toNat_ofNat']

theorem leBytes_add (k j n : Nat) : leBytes (k + j) n = leBytes k n ++ leBytes j (n / 256 ^ k) := by
  induction k generalizing n with
  | zero => simp [leBytes]
  | succ k ih => rw [Nat.succ_add, leBytes, leBytes, ih, Nat.div_div_eq_div_mul, ← Nat.pow_succ', List.cons_append]

theorem leBytes_leValue (bytes : List UInt8) : leBytes bytes.length (leValue bytes) = bytes := by
  induction bytes with
  | nil => rfl
  | cons b rest ih =>
    have small := b.toNat_lt
    have first : UInt8.ofNat (b.toNat + 256 * leValue rest) = b := by
      apply UInt8.toNat_inj.mp
      rw [UInt8.toNat_ofNat']
      omega
    have others : (b.toNat + 256 * leValue rest) / 256 = leValue rest := by omega
    rw [leValue, List.length_cons, leBytes, first, others, ih]

theorem leValue_append (front back : List UInt8) : leValue (front ++ back) = leValue front + 256 ^ front.length * leValue back := by
  induction front with
  | nil => simp [leValue]
  | cons b front ih =>
    rw [List.cons_append, leValue, ih, leValue, List.length_cons, Nat.pow_succ]
    ring

abbrev Reader (ε : Type) := StateT (List UInt8) (Except ε)

variable {ε α β : Type}

variable {r : Reader ε α} {bytes rest : List UInt8} {x : α} {xs : List α}

theorem bind_ok (done : (r >>= next) bytes = .ok (y, rest)) : ∃ x mid, r bytes = .ok (x, mid) ∧ next x mid = .ok (y, rest) := by
  cases first : r bytes with
  | error e =>
    have failed : (r >>= next) bytes = .error e := by
      show (r bytes >>= _) = _
      rw [first]
      rfl
    rw [failed] at done
    exact nomatch done
  | ok result =>
    refine ⟨result.1, result.2, rfl, ?_⟩
    have passed : (r >>= next) bytes = next result.1 result.2 := by
      show (r bytes >>= _) = _
      rw [first]
      rfl
    rw [← passed]
    exact done

theorem pure_ok (done : (pure x : Reader ε α) bytes = .ok (y, rest)) : x = y ∧ bytes = rest :=
  Prod.mk.inj (Except.ok.inj done)

/-- The reader takes these bytes from the front, whatever follows them. -/
def Reads (r : Reader ε α) (x : α) (wire : List UInt8) : Prop := ∀ rest, r (wire ++ rest) = .ok (x, rest)

theorem Reads.bind (first : Reads r x wire) (second : Reads (next x) y wire') : Reads (r >>= next) y (wire ++ wire') := by
  intro rest
  show (r (wire ++ wire' ++ rest) >>= fun result => next result.1 result.2) = _
  rw [List.append_assoc, first]
  exact second rest

theorem Reads.pure (x : α) : Reads (pure x : Reader ε α) x [] := fun _ => rfl

theorem Reads.bind_pure {finish : α → β} (first : Reads r x wire) :
    Reads (r >>= fun x => Pure.pure (finish x)) (finish x) wire := by
  rw [← List.append_nil wire]
  exact first.bind (Reads.pure (finish x))

/-- What was read is written with the bytes that it was read from. -/
def Canonical (r : Reader ε α) (wire : α → List UInt8) : Prop := ∀ bytes x rest, r bytes = .ok (x, rest) → bytes = wire x ++ rest

def many (r : Reader ε α) : Nat → Reader ε (List α)
  | 0 => pure []
  | n + 1 => do
    let x ← r
    let xs ← many r n
    return x :: xs

theorem many_add (r : Reader ε α) (m n : Nat) : many r (m + n) = do
    let xs ← many r m
    let ys ← many r n
    return xs ++ ys := by
  induction m with
  | zero => simp [many]
  | succ m ih =>
    rw [show m + 1 + n = m + n + 1 by omega]
    simp only [many, ih, bind_assoc, pure_bind, List.cons_append]

theorem many_reads {wire : α → List UInt8} (reads : ∀ x ∈ xs, Reads r x (wire x)) :
    Reads (many r xs.length) xs (xs.flatMap wire) := by
  induction xs with
  | nil => exact Reads.pure []
  | cons x xs ih =>
    have others := ih fun x member => reads x (List.mem_cons_of_mem _ member)
    exact (reads x List.mem_cons_self).bind others.bind_pure

theorem many_canonical (canonical : Canonical r wire) (done : many r n bytes = .ok (xs, rest)) :
    bytes = xs.flatMap wire ++ rest ∧ xs.length = n := by
  induction n generalizing bytes xs with
  | zero =>
    obtain ⟨rfl, rfl⟩ := pure_ok done
    exact ⟨rfl, rfl⟩
  | succ n ih =>
    obtain ⟨x, mid, first, done⟩ := bind_ok done
    obtain ⟨others, mid', second, done⟩ := bind_ok done
    obtain ⟨rfl, rfl⟩ := pure_ok done
    obtain ⟨isOthers, length⟩ := ih second
    rw [canonical _ _ _ first, isOthers]
    exact ⟨by simp, by simp [length]⟩

theorem many_length (done : many r n bytes = .ok (xs, rest)) : xs.length = n := by
  induction n generalizing bytes xs with
  | zero =>
    obtain ⟨rfl, _⟩ := pure_ok done
    rfl
  | succ n ih =>
    obtain ⟨x, mid, _, done⟩ := bind_ok done
    obtain ⟨others, mid', second, done⟩ := bind_ok done
    obtain ⟨rfl, rfl⟩ := pure_ok done
    rw [List.length_cons, ih second]

structure Additive (items : Nat → Reader ε (List α)) : Prop where
  zero : items 0 = pure []
  add : ∀ m n, items (m + n) = do
    let xs ← items m
    let ys ← items n
    return xs ++ ys

theorem many_additive (r : Reader ε α) : Additive (many r) := ⟨rfl, many_add r⟩

/-- From item `i` on, at most `chunk` items at once. There is a round for each item. -/
def chunked (items : Nat → Reader ε (List α)) (chunk size : Nat) : Nat → Nat → Reader ε (List α)
  | 0, _ => pure []
  | rounds + 1, i =>
    if i < size then do
      let xs ← items (min (i + chunk) size - i)
      let ys ← chunked items chunk size rounds (min (i + chunk) size)
      return xs ++ ys
    else pure []

theorem chunked_eq (additive : Additive items) (positive : 0 < chunk) (enough : size - i ≤ rounds) :
    chunked items chunk size rounds i = items (size - i) := by
  induction rounds generalizing i with
  | zero =>
    have none : size - i = 0 := by omega
    rw [none, additive.zero]
    rfl
  | succ rounds ih =>
    unfold chunked
    split
    · have sum : size - i = min (i + chunk) size - i + (size - min (i + chunk) size) := by omega
      rw [ih (by omega), sum, additive.add]
    · have none : size - i = 0 := by omega
      rw [none, additive.zero]

end Codec
