import SchillingCoin.Lib.Run
import SchillingCoin.Coins.ViewCache

/-!
A stack of coins caches refines a stack of plain maps, as far as the stored form of the coins in the database gives
them back.
-/

namespace SchillingCoin

namespace CCoins

/-- Coins that the database does not have to store, or whose stored form is read back as it was written. -/
def Kept (keys : PubKeys) (c : CCoins) : Prop :=
  c.isPruned = true ∨ ∃ writes rest, c.serialize keys = some writes ∧ unserialize keys writes.bytes = .ok (c, rest)

theorem kept_of_storable {c : CCoins} (inverts : keys.Inverts) (storable : c.Storable network) (whole : c.StoredWhole)
    (size : c.vout.length + 6 ≤ 2 ^ 31) : c.Kept keys := by
  obtain ⟨writes, written, reads⟩ := storable.reads inverts (headerFits_of_length size)
  rw [whole.readBack_eq] at reads
  have read := reads []
  rw [List.append_nil] at read
  exact Or.inr ⟨writes, [], written, read⟩

theorem serialize_of_unpruned (keys : PubKeys) {c : CCoins} (unpruned : c.isPruned = false) :
    ∃ writes, c.serialize keys = some writes :=
  ⟨_, if_pos (unspent_of_unpruned unpruned)⟩

theorem unserialize_trim (read : unserialize keys bytes = .ok (c, rest)) : c.Trim := by
  obtain ⟨_, _, _, read⟩ := Codec.bind_ok read
  obtain ⟨_, _, _, read⟩ := Codec.bind_ok read
  obtain ⟨_, _, _, read⟩ := Codec.bind_ok read
  obtain ⟨_, _, _, read⟩ := Codec.bind_ok read
  obtain ⟨_, _, _, read⟩ := Codec.bind_ok read
  obtain ⟨rfl, _⟩ := Codec.pure_ok read
  exact trim_cleanup _

end CCoins

namespace CCoinsViewDB

variable {base : CCoinsViewDB} {txid : uint256} {coins : CCoins}

theorem getCoins_trim (found : base.getCoins txid = some coins) : coins.Trim := by
  obtain ⟨bytes, _, found⟩ := Option.bind_eq_some_iff.mp found
  obtain ⟨⟨c, rest⟩, read, found⟩ := Option.bind_eq_some_iff.mp found
  cases found
  cases done : CCoins.unserialize base.keys bytes with
  | error e =>
    rw [done] at read
    cases read
  | ok r =>
    rw [done] at read
    cases read
    exact CCoins.unserialize_trim done

theorem batchWriteCoins_some (base : CCoinsViewDB) (txid : uint256) (coins : CCoins) :
    ∃ base', base.batchWriteCoins txid coins = some base' := by
  unfold batchWriteCoins
  cases pruned : coins.isPruned with
  | true => exact ⟨_, rfl⟩
  | false =>
    obtain ⟨writes, written⟩ := CCoins.serialize_of_unpruned base.keys pruned
    exact ⟨_, by rw [written]; rfl⟩

/-- Coins that the stored form keeps are read back after they were written. -/
theorem getCoins_written (h : base.batchWriteCoins txid coins = some base') (kept : coins.Kept base.keys) :
    ((base'.getCoins txid).getD {}).eqv coins = true := by
  unfold batchWriteCoins at h
  split at h
  · next pruned =>
    cases h
    rw [getCoins, StdMap.lookup_erase_ite, if_pos rfl]
    exact CCoins.eqv_iff.mpr (Or.inl ⟨rfl, pruned⟩)
  · next left =>
    rcases kept with pruned | ⟨writes, rest, written, read⟩
    · exact absurd pruned left
    · rw [written] at h
      cases h
      simp [getCoins, read, Except.toOption]

theorem batchWriteEntry_frame (h : base.batchWriteEntry txid entry = some base') :
    base'.keys = base.keys ∧ ∀ t, t ≠ txid → base'.db.lookup t = base.db.lookup t := by
  unfold batchWriteEntry batchWriteCoins at h
  split at h
  · split at h
    · cases h
      exact ⟨rfl, fun t other => by simp [other]⟩
    · obtain ⟨writes, _, h⟩ := Option.bind_eq_some_iff.mp h
      cases h
      exact ⟨rfl, fun t other => by simp [other]⟩
  · cases h
    exact ⟨rfl, fun _ _ => rfl⟩

end CCoinsViewDB

/-- A plain map for every cache of the stack, and one for the database. -/
structure PlainStack where
  maps : List (uint256 → CCoins) := []
  base : uint256 → CCoins

namespace PlainStack

def top (s : PlainStack) : uint256 → CCoins := s.maps.headD s.base

def Shows (s : PlainStack) : CoinsOp → CoinsAnswer → Prop
  | .getCoins txid, .coins found => (found.getD {}).eqv (s.top txid) = true
  | .accessCoins txid, .coins found => (found.getD {}).eqv (s.top txid) = true
  | .haveCoins txid, .have present => present = !(s.top txid).isPruned
  | .modify txid _, .coins (some found) => s.maps ≠ [] ∧ found.eqv (s.top txid) = true
  | .modify _ _, .coins none => s.maps = []
  | .flush, .done => True
  | .flushPop, .done => True
  | .discard, .done => True
  | .cover, .done => True
  | _, _ => False

def next (s : PlainStack) (op : CoinsOp) (answer : CoinsAnswer) : PlainStack :=
  match op, answer, s.maps with
  | .modify txid change, .coins (some found), m :: maps =>
    { s with maps := Function.update m txid (change found).cleanup :: maps }
  | .flush, _, [m] => { maps := [m], base := m }
  | .flush, _, m :: _ :: maps => { s with maps := m :: m :: maps }
  | .flushPop, _, [m] => { maps := [], base := m }
  | .flushPop, _, m :: _ :: maps => { s with maps := m :: maps }
  | .discard, _, _ :: maps => { s with maps := maps }
  | .cover, _, maps => { s with maps := s.top :: maps }
  | _, _, _ => s

end PlainStack

namespace CoinsStack

def value (base : CCoinsViewDB) (caches : List CCoinsViewCache) (txid : uint256) : Option CCoins :=
  (fetchCoins base txid caches).1

def held (base : CCoinsViewDB) (caches : List CCoinsViewCache) (txid : uint256) : CCoins :=
  (value base caches txid).getD {}

def cached (caches : List CCoinsViewCache) (txid : uint256) : Prop :=
  ∀ cache ∈ caches.head?, (cache.find txid).isSome = true

@[simp] theorem find_put (cache : CCoinsViewCache) (txid t : uint256) (entry : CCoinsCacheEntry) :
    (cache.put txid entry).find t = if t = txid then some entry else cache.find t := by
  simp [CCoinsViewCache.put, CCoinsViewCache.find]

@[simp] theorem find_drop (cache : CCoinsViewCache) (txid t : uint256) :
    (cache.drop txid).find t = if t = txid then none else cache.find t := by
  simp [CCoinsViewCache.drop, CCoinsViewCache.find]

variable {Good : CCoins → Prop} {base : CCoinsViewDB} {cache : CCoinsViewCache} {parents : List CCoinsViewCache}
  {txid : uint256} {entry : CCoinsCacheEntry} {plain : uint256 → CCoins} {caches : List CCoinsViewCache}
  {maps : List (uint256 → CCoins)}

theorem held_found (found : cache.find txid = some entry) :
    held base (cache :: parents) txid = entry.coins := by
  simp [held, value, fetchCoins, found]

theorem held_missing (missing : cache.find txid = none) : held base (cache :: parents) txid = held base parents txid := by
  simp [held, value, fetchCoins, missing]

theorem held_congr (same : cache.find txid = cache'.find txid) :
    held base (cache :: parents) txid = held base (cache' :: parents) txid := by
  cases here : cache'.find txid with
  | none => rw [held_missing (same.trans here), held_missing here]
  | some e => rw [held_found (same.trans here), held_found here]

/-- An entry of a cache over others. What was written to it meets a condition. -/
structure EntryOk (Good : CCoins → Prop) (base : CCoinsViewDB) (parents : List CCoinsViewCache) (txid : uint256)
    (entry : CCoinsCacheEntry) : Prop where
  trim : entry.coins.Trim
  fresh : entry.fresh = true → (held base parents txid).isPruned = true
  clean : entry.dirty = false → entry.coins.eqv (held base parents txid) = true
  good : entry.dirty = true → Good entry.coins
  below : entry.fresh = false → cached parents txid

structure LevelOk (Good : CCoins → Prop) (base : CCoinsViewDB) (cache : CCoinsViewCache) (parents : List CCoinsViewCache) : Prop where
  idle : cache.hasModifier = false
  entries : ∀ txid entry, cache.find txid = some entry → EntryOk Good base parents txid entry

/-- A map agrees with the caches when every lookup finds its entry, up to fully spent ones. -/
def Agrees (base : CCoinsViewDB) (caches : List CCoinsViewCache) (m : uint256 → CCoins) : Prop :=
  ∀ txid, (held base caches txid).eqv (m txid) = true

def Refines (Good : CCoins → Prop) (base : CCoinsViewDB) (plain : uint256 → CCoins) :
    List CCoinsViewCache → List (uint256 → CCoins) → Prop
  | [], [] => Agrees base [] plain
  | cache :: parents, m :: maps =>
    LevelOk Good base cache parents ∧ Agrees base (cache :: parents) m ∧ Refines Good base plain parents maps
  | _, _ => False

theorem value_trim (h : Refines Good base plain caches maps) (found : value base caches txid = some coins) : coins.Trim := by
  induction caches generalizing maps with
  | nil =>
    exact CCoinsViewDB.getCoins_trim found
  | cons cache parents ih =>
    cases maps with
    | nil => exact h.elim
    | cons m maps =>
      obtain ⟨level, _, rest⟩ := h
      cases here : cache.find txid with
      | none =>
        simp only [value, fetchCoins, here] at found
        exact ih rest found
      | some entry =>
        simp only [value, fetchCoins, here, Option.some.injEq] at found
        exact found ▸ (level.entries txid entry here).trim

theorem EntryOk.moved (ok : EntryOk Good base parents txid entry) (same : ∀ t, held base parents' t = held base parents t)
    (kept : cached parents txid → cached parents' txid) : EntryOk Good base parents' txid entry where
  trim := ok.trim
  fresh := by rw [same]; exact ok.fresh
  clean := by rw [same]; exact ok.clean
  good := ok.good
  below := fun stale => kept (ok.below stale)

theorem EntryOk.changed (ok : EntryOk Good base parents txid entry) (trim : coins.Trim) (good : Good coins) :
    EntryOk Good base parents txid { entry with coins, dirty := true } where
  trim := trim
  fresh := ok.fresh
  clean := by simp
  good := fun _ => good
  below := ok.below

theorem freshEntry_ok (trim : ∀ coins ∈ found, coins.Trim) (same : held base parents txid = found.getD {})
    (kept : found.isSome = true → cached parents txid) : EntryOk Good base parents txid (CCoinsViewCache.freshEntry found) := by
  cases found with
  | none =>
    refine ⟨CCoins.trim_empty, fun _ => ?_, fun _ => ?_, fun dirty => ?_, fun stale => ?_⟩
    · simp [same]
    · simp [same, CCoinsViewCache.freshEntry]
    · simp [CCoinsViewCache.freshEntry] at dirty
    · simp [CCoinsViewCache.freshEntry] at stale
  | some coins =>
    refine ⟨trim coins rfl, fun pruned => ?_, fun _ => ?_, fun dirty => ?_, fun _ => kept rfl⟩
    · simpa [same, CCoinsViewCache.freshEntry] using pruned
    · simp [same, CCoinsViewCache.freshEntry]
    · simp [CCoinsViewCache.freshEntry] at dirty

theorem LevelOk.put (level : LevelOk Good base cache parents) (ok : EntryOk Good base parents txid entry) :
    LevelOk Good base (cache.put txid entry) parents where
  idle := level.idle
  entries t e here := by
    rw [find_put] at here
    split at here
    · rename_i same
      obtain rfl := Option.some.inj here
      exact same ▸ ok
    · exact level.entries t e here

theorem LevelOk.drop (level : LevelOk Good base cache parents) (txid : uint256) : LevelOk Good base (cache.drop txid) parents where
  idle := level.idle
  entries t e here := by
    rw [find_drop] at here
    split at here
    · cases here
    · exact level.entries t e here

theorem LevelOk.moved (level : LevelOk Good base cache parents) (same : ∀ t, held base parents' t = held base parents t)
    (kept : ∀ t, cached parents t → cached parents' t) : LevelOk Good base cache parents' where
  idle := level.idle
  entries t e here := (level.entries t e here).moved same (kept t)

/-- What a lookup does to the caches: they hold the same values, and an entry that was found is cached. -/
structure Fetched (base : CCoinsViewDB) (txid : uint256) (caches caches' : List CCoinsViewCache) : Prop where
  same : ∀ t, held base caches' t = held base caches t
  kept : ∀ t, cached caches t → cached caches' t
  found : (value base caches txid).isSome = true → cached caches' txid

theorem fetchCoins_fetched (base : CCoinsViewDB) (txid : uint256) (caches : List CCoinsViewCache) :
    Fetched base txid caches (fetchCoins base txid caches).2 := by
  induction caches with
  | nil => exact ⟨fun _ => rfl, fun _ c => c, fun _ => by simp [cached, fetchCoins]⟩
  | cons cache parents ih =>
    cases here : cache.find txid with
    | some entry =>
      simp only [fetchCoins, here]
      exact ⟨fun _ => rfl, fun _ c => c, fun _ => by simp [cached, here]⟩
    | none =>
      simp only [fetchCoins, here]
      cases below : (fetchCoins base txid parents).1 with
      | none =>
        simp only [CCoinsViewCache.fill]
        refine ⟨fun t => ?_, fun t c => c, fun found => ?_⟩
        · cases at_t : cache.find t with
          | none => rw [held_missing at_t, held_missing at_t, ih.same]
          | some e => rw [held_found at_t, held_found at_t]
        · simp [value, fetchCoins, here, below] at found
      | some coins =>
        simp only [CCoinsViewCache.fill]
        refine ⟨fun t => ?_, fun t c => ?_, fun _ => by simp [cached]⟩
        · by_cases same : t = txid
          · subst same
            rw [held_found (by rw [find_put, if_pos rfl]), held_missing here]
            simp [held, value, below]
          · have other (e : CCoinsCacheEntry) : (cache.put txid e).find t = cache.find t := by simp [same]
            cases at_t : cache.find t with
            | none => rw [held_missing ((other _).trans at_t), held_missing at_t, ih.same]
            | some e => rw [held_found ((other _).trans at_t), held_found at_t]
        · simp only [cached, List.head?_cons, Option.mem_some_iff, forall_eq'] at c ⊢
          rw [find_put]
          split
          · rfl
          · exact c

theorem fetchCoins_refines (h : Refines Good base plain caches maps) (txid : uint256) :
    Refines Good base plain (fetchCoins base txid caches).2 maps := by
  induction caches generalizing maps with
  | nil => exact h
  | cons cache parents ih =>
    cases maps with
    | nil => exact h.elim
    | cons m maps =>
      have fetched := fetchCoins_fetched base txid (cache :: parents)
      obtain ⟨level, agrees, rest⟩ := h
      have agrees' : Agrees base (fetchCoins base txid (cache :: parents)).2 m := by
        intro t
        rw [fetched.same]
        exact agrees t
      cases here : cache.find txid with
      | some entry =>
        simp only [fetchCoins, here] at agrees' ⊢
        exact ⟨level, agrees', rest⟩
      | none =>
        simp only [fetchCoins, here] at agrees' ⊢
        have lower := fetchCoins_fetched base txid parents
        have moved := level.moved lower.same lower.kept
        refine ⟨?_, agrees', ih rest⟩
        cases below : (fetchCoins base txid parents).1 with
        | none => exact moved
        | some coins =>
          have ok : EntryOk Good base (fetchCoins base txid parents).2 txid (CCoinsViewCache.freshEntry (some coins)) := by
            refine freshEntry_ok ?_ ?_ ?_
            · rintro c ⟨⟩
              exact value_trim rest below
            · rw [lower.same]
              simp [held, value, below]
            · intro _
              exact lower.found (by simp [value, below])
          exact moved.put ok

theorem releaseModifier_ok (level : LevelOk Good base cache parents) (ok : EntryOk Good base parents txid entry) (coins : CCoins) :
    ∃ cache', CCoinsViewCache.releaseModifier { cache with hasModifier := true } txid
        { entry with coins, dirty := true } = some cache' ∧
      (Good coins.cleanup → LevelOk Good base cache' parents) ∧
      ∀ t, (held base (cache' :: parents) t).eqv
        (if t = txid then coins.cleanup else held base (cache :: parents) t) = true := by
  have idle : { cache with hasModifier := false } = cache := by rw [← level.idle]
  simp only [CCoinsViewCache.releaseModifier, Bool.not_true, Bool.false_eq_true, if_false, idle]
  split
  · rename_i emptied
    rw [Bool.and_eq_true] at emptied
    refine ⟨_, rfl, fun _ => level.drop txid, fun t => ?_⟩
    split
    · rename_i same
      subst same
      rw [held_missing (by simp)]
      exact CCoins.eqv_iff.mpr (Or.inl ⟨ok.fresh emptied.1, emptied.2⟩)
    · rename_i other
      cases at_t : cache.find t with
      | none => rw [held_missing (by simp [other, at_t]), held_missing at_t, CCoins.eqv_refl]
      | some e => rw [held_found (by simp [other, at_t]; rfl), held_found at_t, CCoins.eqv_refl]
  · refine ⟨_, rfl, fun good => level.put (ok.changed coins.trim_cleanup good), fun t => ?_⟩
    split
    · rename_i same
      subst same
      rw [held_found (by rw [find_put, if_pos rfl]), CCoins.eqv_refl]
    · rename_i other
      cases at_t : cache.find t with
      | none => rw [held_missing (by simp [other, at_t]), held_missing at_t, CCoins.eqv_refl]
      | some e => rw [held_found (by simp [other, at_t]; rfl), held_found at_t, CCoins.eqv_refl]

theorem modifyCoins_ok (level : LevelOk Good base cache parents) (rest : Refines Good base plain parents maps) (txid : uint256) :
    ∃ entry parents', modifyCoins base txid cache parents =
        some ({ entry with dirty := true }, { cache with hasModifier := true }, parents') ∧
      EntryOk Good base parents' txid entry ∧ LevelOk Good base cache parents' ∧
      Refines Good base plain parents' maps ∧ entry.coins = held base (cache :: parents) txid ∧
      ∀ t, held base (cache :: parents') t = held base (cache :: parents) t := by
  unfold modifyCoins
  rw [level.idle]
  simp only [Bool.false_eq_true, if_false]
  cases here : cache.find txid with
  | some entry =>
    exact ⟨entry, parents, rfl, level.entries txid entry here, level, rest, (held_found here).symm, fun _ => rfl⟩
  | none =>
    have lower := fetchCoins_fetched base txid parents
    have ok : EntryOk Good base (fetchCoins base txid parents).2 txid
        (CCoinsViewCache.freshEntry (fetchCoins base txid parents).1) := by
      refine freshEntry_ok (fun coins found => value_trim rest found) ?_ (fun some => lower.found some)
      rw [lower.same]
      rfl
    refine ⟨_, _, rfl, ok, level.moved lower.same lower.kept, fetchCoins_refines rest txid, ?_, fun t => ?_⟩
    · rw [held_missing here]
      unfold held value
      cases (fetchCoins base txid parents).1 <;> rfl
    · cases at_t : cache.find t with
      | none => rw [held_missing at_t, held_missing at_t, lower.same]
      | some e => rw [held_found at_t, held_found at_t]

theorem modify_ok (h : Refines Good base plain (cache :: parents) (m :: maps)) (txid : uint256) (change : CCoins → CCoins) :
    ∃ seen caches', modify ⟨cache :: parents, base⟩ txid change = some (some seen, ⟨caches', base⟩) ∧ seen.eqv (m txid) = true ∧
      (Good (change seen).cleanup → Refines Good base plain caches' (Function.update m txid (change seen).cleanup :: maps)) := by
  obtain ⟨level, agrees, rest⟩ := h
  obtain ⟨entry, parents', opened, ok, level, rest, shown, same⟩ := modifyCoins_ok level rest txid
  obtain ⟨cache', closed, level', after⟩ := releaseModifier_ok level ok (change entry.coins)
  refine ⟨entry.coins, cache' :: parents', ?_, shown ▸ agrees txid, fun good => ⟨level' good, fun t => ?_, rest⟩⟩
  · simp [modify, opened, closed]
  · refine CCoins.eqv_trans (after t) ?_
    rw [same, Function.update_apply]
    split
    · exact CCoins.eqv_refl _
    · exact agrees t

theorem batchWriteEntry_frame (h : cache.batchWriteEntry txid entry = some cache') :
    cache'.hasModifier = cache.hasModifier ∧ ∀ t, t ≠ txid → cache'.find t = cache.find t := by
  unfold CCoinsViewCache.batchWriteEntry at h
  repeat' split at h
  all_goals cases h
  all_goals exact ⟨rfl, fun t other => by simp [other]⟩

theorem batchWriteEntry_ok (level : LevelOk Good base parent parents) (ok : EntryOk Good base (parent :: parents) txid entry)
    {us : CCoinsViewCache} (same : us.find txid = parent.find txid) :
    ∃ us', us.batchWriteEntry txid entry = some us' ∧
      (∀ e, us'.find txid = some e → EntryOk Good base parents txid e) ∧
      (held base (us' :: parents) txid).eqv entry.coins = true := by
  have kept (e : CCoinsCacheEntry) (found : us.find txid = some e) : EntryOk Good base parents txid e :=
    level.entries txid e (same ▸ found)
  unfold CCoinsViewCache.batchWriteEntry
  cases dirty : entry.dirty with
  | false => exact ⟨us, rfl, kept, held_congr same ▸ CCoins.eqv_symm (ok.clean dirty)⟩
  | true =>
    simp only [if_true]
    cases found : us.find txid with
    | none =>
      have missing : parent.find txid = none := same ▸ found
      have isFresh : entry.fresh = true := by
        by_contra stale
        have := ok.below (Bool.eq_false_iff.mpr stale)
        simp [cached, missing] at this
      have under : (held base parents txid).isPruned = true := held_missing missing ▸ ok.fresh isFresh
      cases pruned : entry.coins.isPruned with
      | true =>
        refine ⟨us, by simp, kept, ?_⟩
        rw [held_missing found]
        exact CCoins.eqv_iff.mpr (Or.inl ⟨under, pruned⟩)
      | false =>
        refine ⟨us.put txid { coins := entry.coins, dirty := true, fresh := true }, by simp [isFresh],
          fun e here => ?_, ?_⟩
        · rw [find_put, if_pos rfl] at here
          obtain rfl := Option.some.inj here
          exact ⟨ok.trim, fun _ => under, by simp, fun _ => ok.good dirty, by simp⟩
        · rw [held_found (by rw [find_put, if_pos rfl]), CCoins.eqv_refl]
    | some ours =>
      have ours_ok := kept ours found
      simp only
      split
      · rename_i emptied
        rw [Bool.and_eq_true] at emptied
        refine ⟨_, rfl, fun e here => ?_, ?_⟩
        · simp at here
        · rw [held_missing (by simp)]
          exact CCoins.eqv_iff.mpr (Or.inl ⟨ours_ok.fresh emptied.1, emptied.2⟩)
      · refine ⟨_, rfl, fun e here => ?_, ?_⟩
        · rw [find_put, if_pos rfl] at here
          obtain rfl := Option.some.inj here
          exact ours_ok.changed ok.trim (ok.good dirty)
        · rw [held_found (by rw [find_put, if_pos rfl]), CCoins.eqv_refl]

theorem batchWrite_ok {parent : CCoinsViewCache} (upper : LevelOk Good base child (parent :: parents))
    (level : LevelOk Good base parent parents) :
    ∃ parent', parent.batchWrite child.cacheCoins child.hashBlock = some parent' ∧
      LevelOk Good base parent' parents ∧
      ∀ t, (held base (parent' :: parents) t).eqv (held base (child :: parent :: parents) t) = true := by
  let slot (cache : CCoinsViewCache) (t : uint256) := (cache.hasModifier, cache.find t)
  have frame : ∀ us t e us', CCoinsViewCache.batchWriteEntry us t e = some us' →
      ∀ k, k ≠ t → slot us' k = slot us k := by
    intro us t e us' written k other
    obtain ⟨modifier, others⟩ := batchWriteEntry_frame written
    exact Prod.ext modifier (others k other)
  obtain ⟨last, loop⟩ := StdMap.foldlM_slot_exists CCoinsViewCache.batchWriteEntry slot frame child.cacheCoins
    parent fun t e found us same => by
      obtain ⟨us', written, _⟩ := batchWriteEntry_ok level (upper.entries t e found) (congrArg Prod.snd same)
      exact ⟨us', written⟩
  have passes := StdMap.foldlM_slot CCoinsViewCache.batchWriteEntry slot frame child.cacheCoins loop
  refine ⟨{ last with hashBlock := child.hashBlock }, ?_, ⟨?_, fun t e here => ?_⟩, fun t => ?_⟩
  · simp [CCoinsViewCache.batchWrite, level.idle, loop]
  · obtain ⟨without, found⟩ := passes 0
    cases written : child.cacheCoins.lookup 0 with
    | none => exact (congrArg Prod.fst (without written)).trans level.idle
    | some e =>
      obtain ⟨a, b, before, pass, after⟩ := found e written
      have idle := (congrArg Prod.fst after).trans (batchWriteEntry_frame pass).1
      exact (idle.trans (congrArg Prod.fst before)).trans level.idle
  · obtain ⟨without, found⟩ := passes t
    cases written : child.cacheCoins.lookup t with
    | none =>
      exact level.entries t e ((congrArg Prod.snd (without written)).symm.trans here)
    | some childEntry =>
      obtain ⟨a, b, before, pass, after⟩ := found childEntry written
      obtain ⟨b', pass', ok, _⟩ := batchWriteEntry_ok level (upper.entries t _ written) (congrArg Prod.snd before)
      obtain rfl := Option.some.inj (pass.symm.trans pass')
      exact ok e ((congrArg Prod.snd after).symm.trans here)
  · obtain ⟨without, found⟩ := passes t
    cases written : child.find t with
    | none =>
      have same : CCoinsViewCache.find { last with hashBlock := child.hashBlock } t = parent.find t :=
        congrArg Prod.snd (without written)
      rw [held_missing written, held_congr same, CCoins.eqv_refl]
    | some childEntry =>
      obtain ⟨a, b, before, pass, after⟩ := found childEntry written
      obtain ⟨b', pass', _, same⟩ := batchWriteEntry_ok level (upper.entries t _ written) (congrArg Prod.snd before)
      obtain rfl := Option.some.inj (pass.symm.trans pass')
      have stored : CCoinsViewCache.find { last with hashBlock := child.hashBlock } t = b.find t :=
        congrArg Prod.snd after
      rw [held_found written, held_congr stored]
      exact same

theorem dbBatchWrite_ok (upper : LevelOk Good base child []) :
    ∃ base', base.batchWrite child.cacheCoins child.hashBlock = some base' ∧ base'.keys = base.keys ∧
      ((∀ c, Good c → c.Kept base.keys) → ∀ t, (held base' [] t).eqv (held base [child] t) = true) := by
  let slot (us : CCoinsViewDB) (t : uint256) := (us.keys, us.db.lookup t)
  have frame : ∀ us t e us', CCoinsViewDB.batchWriteEntry us t e = some us' → ∀ k, k ≠ t → slot us' k = slot us k := by
    intro us t e us' written k other
    obtain ⟨keys, others⟩ := CCoinsViewDB.batchWriteEntry_frame written
    exact Prod.ext keys (others k other)
  obtain ⟨last, loop⟩ := StdMap.foldlM_slot_exists CCoinsViewDB.batchWriteEntry slot frame child.cacheCoins base
    fun t e found us same => by
      unfold CCoinsViewDB.batchWriteEntry
      split
      · exact us.batchWriteCoins_some t e.coins
      · exact ⟨_, rfl⟩
  have passes := StdMap.foldlM_slot CCoinsViewDB.batchWriteEntry slot frame child.cacheCoins loop
  have read (t : uint256) : held (if child.hashBlock = 0 then last else { last with hashBestChain := child.hashBlock }) [] t =
      held last [] t := by
    split <;> rfl
  have ofSlot (a b : CCoinsViewDB) (t : uint256) (same : slot a t = slot b t) : held a [] t = held b [] t := by
    obtain ⟨keys, found⟩ := Prod.mk.inj same
    simp only [held, value, fetchCoins, CCoinsViewDB.getCoins, keys, found]
  refine ⟨if child.hashBlock = 0 then last else { last with hashBestChain := child.hashBlock }, ?_, ?_, fun stores t => ?_⟩
  · simp [CCoinsViewDB.batchWrite, loop]
  · have keys : last.keys = base.keys := by
      obtain ⟨without, found⟩ := passes 0
      cases written : child.cacheCoins.lookup 0 with
      | none => exact congrArg Prod.fst (without written)
      | some e =>
        obtain ⟨a, b, before, pass, after⟩ := found e written
        have same := (congrArg Prod.fst after).trans (CCoinsViewDB.batchWriteEntry_frame pass).1
        exact same.trans (congrArg Prod.fst before)
    split
    · exact keys
    · exact keys
  · obtain ⟨without, found⟩ := passes t
    rw [read]
    cases written : child.find t with
    | none => rw [held_missing written, ofSlot last base t (without written), CCoins.eqv_refl]
    | some entry =>
      obtain ⟨a, b, before, pass, after⟩ := found entry written
      have ok := upper.entries t entry written
      rw [held_found written, ofSlot last b t after]
      unfold CCoinsViewDB.batchWriteEntry at pass
      split at pass
      · next dirty =>
        have kept := stores entry.coins (ok.good dirty)
        have keys : a.keys = base.keys := congrArg Prod.fst before
        exact CCoinsViewDB.getCoins_written pass (keys ▸ kept)
      · next clean =>
        cases pass
        rw [ofSlot a base t before]
        exact CCoins.eqv_symm (ok.clean (Bool.eq_false_iff.mpr clean))

def Related (keys : PubKeys) (Good : CCoins → Prop) (s : CoinsStack) (p : PlainStack) : Prop :=
  s.base.keys = keys ∧ Refines Good s.base p.base s.caches p.maps

/-- The caches keep their invariant, and show the plain maps where the database gives back what is written to it. -/
structure Continues (keys : PubKeys) (Good : CCoins → Prop) (s : CoinsStack) (p : PlainStack) : Prop where
  sound : ∃ q, q.maps.length = p.maps.length ∧ Related keys Good s q
  related : (∀ c, Good c → c.Kept keys) → Related keys Good s p

/-- A modification leaves coins that meet a condition. -/
def Leaves (Good : CCoins → Prop) : CoinsOp → CoinsAnswer → Prop
  | .modify _ change, .coins (some found) => Good (change found).cleanup
  | _, _ => True

section

variable {keys : PubKeys} {s : CoinsStack} {p : PlainStack}

theorem Related.continues (h : Related keys Good s p) : Continues keys Good s p := ⟨⟨p, rfl, h⟩, fun _ => h⟩

theorem related_agrees (h : Related keys Good s p) : Agrees s.base s.caches p.top := by
  obtain ⟨caches, base⟩ := s
  obtain ⟨maps, plain⟩ := p
  obtain ⟨_, h⟩ := h
  cases caches <;> cases maps
  · exact h
  · exact h.elim
  · exact h.elim
  · exact h.2.1

theorem getCoins_related (h : Related keys Good s p) (txid : uint256) :
    Related keys Good (s.getCoins txid).2 p ∧ ((s.getCoins txid).1.getD {}).eqv (p.top txid) = true :=
  ⟨⟨h.1, fetchCoins_refines h.2 txid⟩, related_agrees h txid⟩

theorem haveCoins_related (h : Related keys Good s p) (txid : uint256) :
    (s.haveCoins txid).1 = !(p.top txid).isPruned := by
  obtain ⟨_, same⟩ := getCoins_related h txid
  rw [← CCoins.eqv_isPruned same]
  simp only [haveCoins]
  cases found : (s.getCoins txid).1 with
  | none => simp
  | some coins => simp [CCoins.isPruned_of_trim (value_trim h.2 found)]

theorem levelOk_empty (base : CCoinsViewDB) (parents : List CCoinsViewCache) (hashBlock : uint256) :
    LevelOk Good base { hashBlock } parents where
  idle := rfl
  entries t e here := by simp [CCoinsViewCache.find] at here

theorem held_empty (base : CCoinsViewDB) (parents : List CCoinsViewCache) (hashBlock : uint256) (t : uint256) :
    held base ({ hashBlock } :: parents) t = held base parents t :=
  held_missing (by simp [CCoinsViewCache.find])

theorem flush_length (p : PlainStack) : (p.next .flush .done).maps.length = p.maps.length := by
  obtain ⟨maps, plain⟩ := p
  match maps with
  | [] => rfl
  | [m] => rfl
  | m :: m' :: maps => rfl

theorem discard_length (p : PlainStack) : (p.next .discard .done).maps.length = p.maps.length - 1 := by
  obtain ⟨maps, plain⟩ := p
  cases maps with
  | nil => rfl
  | cons m maps => rfl

theorem flushPop_next (p : PlainStack) :
    (p.next .flush .done).next .discard .done = p.next .flushPop .done := by
  obtain ⟨maps, plain⟩ := p
  match maps with
  | [] => rfl
  | [m] => rfl
  | m :: m' :: maps => rfl

theorem flush_related (h : Related keys Good s p) :
    ∃ t, s.flush = some t ∧ Continues keys Good t (p.next .flush .done) := by
  obtain ⟨caches, base⟩ := s
  obtain ⟨maps, plain⟩ := p
  obtain ⟨rfl, h⟩ := h
  match caches, maps, h with
  | [], [], h => exact ⟨_, rfl, Related.continues ⟨rfl, h⟩⟩
  | [child], [m], ⟨level, agrees, _⟩ =>
    obtain ⟨base', written, keys, same⟩ := dbBatchWrite_ok level
    refine ⟨⟨[{ child with cacheCoins := ∅ }], base'⟩, by simp [flush, written], ?_⟩
    have idle : { child with cacheCoins := ∅ } = ({ hashBlock := child.hashBlock } : CCoinsViewCache) := by
      simp [level.idle]
    rw [idle]
    have shows (m : uint256 → CCoins) (agrees : Agrees base' [] m) :
        Related base.keys Good ⟨[{ hashBlock := child.hashBlock }], base'⟩ ⟨[m], m⟩ :=
      ⟨keys, levelOk_empty _ _ _, fun t => (held_empty _ _ _ t).symm ▸ agrees t, agrees⟩
    -- what was written is some plain map, and it is the one before the write where it is kept
    exact ⟨⟨⟨[held base' []], held base' []⟩, rfl, shows (held base' []) fun t => CCoins.eqv_refl _⟩,
      fun stores => shows m fun t => CCoins.eqv_trans (same stores t) (agrees t)⟩
  | child :: parent :: parents, m :: m' :: maps, ⟨level, agrees, lower, _, rest⟩ =>
    obtain ⟨parent', written, lower', same⟩ := batchWrite_ok level lower
    have agrees' : Agrees base (parent' :: parents) m := fun t => CCoins.eqv_trans (same t) (agrees t)
    refine ⟨⟨{ child with cacheCoins := ∅ } :: parent' :: parents, base⟩, by simp [flush, written], ?_⟩
    have idle : { child with cacheCoins := ∅ } = ({ hashBlock := child.hashBlock } : CCoinsViewCache) := by
      simp [level.idle]
    rw [idle]
    exact Related.continues ⟨rfl, levelOk_empty _ _ _, fun t => (held_empty _ _ _ t).symm ▸ agrees' t, lower', agrees', rest⟩

theorem flush_continues (h : Continues keys Good s p) :
    ∃ t, s.flush = some t ∧ Continues keys Good t (p.next .flush .done) := by
  obtain ⟨q, deep, sound⟩ := h.sound
  obtain ⟨t, flushed, continues⟩ := flush_related sound
  obtain ⟨q', deep', sound'⟩ := continues.sound
  have length : q'.maps.length = (p.next .flush .done).maps.length := by
    rw [deep', flush_length, deep, flush_length]
  refine ⟨t, flushed, ⟨q', length, sound'⟩, fun stores => ?_⟩
  obtain ⟨t', flushed', continues'⟩ := flush_related (h.related stores)
  obtain rfl := Option.some.inj (flushed.symm.trans flushed')
  exact continues'.related stores

theorem discard_related (h : Related keys Good s p) :
    ∃ t, s.discard = some t ∧ Related keys Good t (p.next .discard .done) := by
  obtain ⟨caches, base⟩ := s
  obtain ⟨maps, plain⟩ := p
  obtain ⟨keys, h⟩ := h
  match caches, maps, h with
  | [], [], h => exact ⟨_, rfl, keys, h⟩
  | cache :: parents, m :: maps, ⟨level, _, rest⟩ =>
    exact ⟨⟨parents, base⟩, by simp [discard, level.idle], keys, rest⟩

theorem discard_continues (h : Continues keys Good s p) :
    ∃ t, s.discard = some t ∧ Continues keys Good t (p.next .discard .done) := by
  obtain ⟨q, deep, sound⟩ := h.sound
  obtain ⟨t, discarded, sound⟩ := discard_related sound
  refine ⟨t, discarded, ⟨_, by rw [discard_length, deep, discard_length], sound⟩, fun stores => ?_⟩
  obtain ⟨t', discarded', related⟩ := discard_related (h.related stores)
  obtain rfl := Option.some.inj (discarded.symm.trans discarded')
  exact related

theorem flushPop_continues (h : Continues keys Good s p) :
    ∃ t t', s.flush = some t ∧ t.discard = some t' ∧ Continues keys Good t' (p.next .flushPop .done) := by
  obtain ⟨t, flushed, continues⟩ := flush_continues h
  obtain ⟨t', popped, continues⟩ := discard_continues continues
  exact ⟨t, t', flushed, popped, flushPop_next p ▸ continues⟩

theorem cover_related (h : Related keys Good s p) : Related keys Good s.cover (p.next .cover .done) :=
  ⟨h.1, levelOk_empty _ _ _, fun t => (held_empty _ _ _ t).symm ▸ related_agrees h t, h.2⟩

theorem step_continues (h : Related keys Good s p) (op : CoinsOp) :
    ∃ answer t, s.step op = some (answer, t) ∧ p.Shows op answer ∧
      (Leaves Good op answer → Continues keys Good t (p.next op answer)) := by
  cases op with
  | getCoins txid =>
    obtain ⟨related, shown⟩ := getCoins_related h txid
    exact ⟨_, _, rfl, shown, fun _ => related.continues⟩
  | accessCoins txid =>
    obtain ⟨related, shown⟩ := getCoins_related h txid
    exact ⟨_, _, rfl, shown, fun _ => related.continues⟩
  | haveCoins txid => exact ⟨_, _, rfl, haveCoins_related h txid, fun _ => (getCoins_related h txid).1.continues⟩
  | modify txid change =>
    obtain ⟨caches, base⟩ := s
    obtain ⟨maps, plain⟩ := p
    obtain ⟨keys, h⟩ := h
    match caches, maps, h with
    | [], [], h => exact ⟨_, _, rfl, rfl, fun _ => Related.continues ⟨keys, h⟩⟩
    | cache :: parents, m :: maps, h =>
      obtain ⟨seen, caches', modified, shown, related⟩ := modify_ok h txid change
      exact ⟨.coins (some seen), ⟨caches', base⟩, by simp [step, modified], ⟨by simp, shown⟩,
        fun good => Related.continues ⟨keys, related good⟩⟩
  | flush =>
    obtain ⟨t, flushed, continues⟩ := flush_related h
    exact ⟨.done, t, by simp [step, flushed], trivial, fun _ => continues⟩
  | flushPop =>
    obtain ⟨t, t', flushed, popped, continues⟩ := flushPop_continues h.continues
    exact ⟨.done, t', by simp [step, flushed, popped], trivial, fun _ => continues⟩
  | discard =>
    obtain ⟨t, discarded, related⟩ := discard_related h
    exact ⟨.done, t, by simp [step, discarded], trivial, fun _ => related.continues⟩
  | cover => exact ⟨.done, _, rfl, trivial, fun _ => (cover_related h).continues⟩

theorem step_sound (sound : ∃ p, Related keys (fun _ => True) s p) (op : CoinsOp) :
    ∃ answer t, s.step op = some (answer, t) ∧ True ∧ ∃ p, Related keys (fun _ => True) t p := by
  obtain ⟨p, sound⟩ := sound
  obtain ⟨answer, t, done, _, continues⟩ := step_continues sound op
  have leaves : Leaves (fun _ => True) op answer := by
    unfold Leaves
    split
    · trivial
    · trivial
  obtain ⟨q, _, sound⟩ := (continues leaves).sound
  exact ⟨answer, t, done, trivial, q, sound⟩

theorem step_related (keys : PubKeys) (s : CoinsStack) (p : PlainStack) (op : CoinsOp) (answer : CoinsAnswer) (t : CoinsStack)
    (h : Related keys (CCoins.Kept keys) s p) (done : s.step op = some (answer, t)) (leaves : Leaves (CCoins.Kept keys) op answer) :
    p.Shows op answer ∧ Related keys (CCoins.Kept keys) t (p.next op answer) := by
  obtain ⟨answer', t', done', shown, continues⟩ := step_continues h op
  rw [done] at done'
  cases done'
  exact ⟨shown, (continues leaves).related fun _ => id⟩

theorem refines_length (h : Refines Good base plain caches maps) : caches.length = maps.length := by
  induction caches generalizing maps with
  | nil =>
    cases maps with
    | nil => rfl
    | cons m maps => exact h.elim
  | cons cache parents ih =>
    cases maps with
    | nil => exact h.elim
    | cons m maps => simp [ih h.2.2]

theorem Continues.length (h : Continues keys Good s p) : s.caches.length = p.maps.length := by
  obtain ⟨q, deep, sound⟩ := h.sound
  exact (refines_length sound.2).trans deep

theorem flushPop_top (depth : p.maps.length = n + 1) :
    (p.next .flushPop .done).top = p.top ∧ (p.next .flushPop .done).maps.length = n := by
  obtain ⟨maps, plain⟩ := p
  match maps, depth with
  | [m], depth => exact ⟨rfl, Nat.succ.inj depth⟩
  | m :: m' :: maps, depth => exact ⟨rfl, Nat.succ.inj depth⟩

/-- Every level can be flushed into the database, which then holds the plain map where it gives back what is written. -/
theorem flushAll_continues (h : Continues keys Good s p) :
    ∃ base, flushAll s.caches.length s = some ⟨[], base⟩ ∧
      ((∀ c, Good c → c.Kept keys) → Agrees base [] p.top) := by
  generalize depth : s.caches.length = n
  induction n generalizing s p with
  | zero =>
    obtain ⟨caches, base⟩ := s
    obtain rfl := List.length_eq_zero_iff.mp depth
    exact ⟨base, rfl, fun stores => related_agrees (h.related stores)⟩
  | succ n ih =>
    obtain ⟨t, t', flushed, popped, continues⟩ := flushPop_continues h
    obtain ⟨top, fewer⟩ := flushPop_top (h.length.symm.trans depth)
    obtain ⟨base, done, agrees⟩ := ih continues (continues.length.trans fewer)
    exact ⟨base, by simp [flushAll, flushed, popped, done], fun stores => top ▸ agrees stores⟩

end

/-- For every database and every sequence of operations on the topmost cache, no assertion fires and every level can be
flushed. Where every modification leaves coins that the database keeps, every lookup shows what the plain map with the
same writes holds, and flushing every level leaves that map in the database. -/
theorem cache_stack_refines_plain_map (base : CCoinsViewDB) (ops : List CoinsOp) :
    let plain : PlainStack := { base := fun txid => (base.getCoins txid).getD {} }
    ∃ answers s base', Run.run step ⟨[], base⟩ ops = some (answers, s) ∧ flushAll s.caches.length s = some ⟨[], base'⟩ ∧
      (List.Forall₂ (Leaves (CCoins.Kept base.keys)) ops answers →
        Run.Explains PlainStack.Shows PlainStack.next plain ops answers ∧
        ∀ txid, ((base'.getCoins txid).getD {}).eqv ((Run.follow PlainStack.next plain ops answers).top txid) = true) := by
  intro plain
  have start (Good : CCoins → Prop) : Related base.keys Good ⟨[], base⟩ plain := ⟨rfl, fun txid => CCoins.eqv_refl _⟩
  -- without a condition on the coins the caches still keep their invariant
  obtain ⟨answers, s, ran, _, q, sound⟩ := Run.run_answers (fun s => ∃ p, Related base.keys (fun _ => True) s p)
    (fun _ => True) (fun _ _ => True) (fun s op sound _ => step_sound sound op) ops ⟨plain, start _⟩ fun _ _ => trivial
  obtain ⟨base', flushed, _⟩ := flushAll_continues sound.continues
  refine ⟨answers, s, base', ran, flushed, fun kept => ?_⟩
  obtain ⟨explained, related⟩ := Run.explains_of_run _ (step_related base.keys) (start _) ran kept
  obtain ⟨base'', flushed', agrees⟩ := flushAll_continues related.continues
  rw [flushed] at flushed'
  cases flushed'
  exact ⟨explained, agrees fun _ => id⟩

theorem leaves_constant {Good : CCoins → Prop} (good : Good coins.cleanup) (txid : uint256) (answer : CoinsAnswer) :
    Leaves Good (.modify txid fun _ => coins) answer := by
  unfold Leaves
  split
  · next same =>
    cases same
    exact good
  · trivial

/-- Coins written in one cache are read through another one over it, and end in the database. -/
theorem generator_coins_flushed : ∃ answers s base',
    Run.run step ⟨[], { keys := CCoins.generatorKeys }⟩
      [.cover, .modify 1 fun _ => CCoins.generatorCoins, .cover, .getCoins 1, .flushPop] = some (answers, s) ∧
    flushAll s.caches.length s = some ⟨[], base'⟩ ∧ ((base'.getCoins 1).getD {}).eqv CCoins.generatorCoins = true := by
  obtain ⟨answers, s, base', ran, flushed, simulated⟩ := cache_stack_refines_plain_map { keys := CCoins.generatorKeys }
    [.cover, .modify 1 fun _ => CCoins.generatorCoins, .cover, .getCoins 1, .flushPop]
  have kept : CCoins.generatorCoins.cleanup.Kept CCoins.generatorKeys := by
    rw [CCoins.cleanup_of_trim CCoins.generatorCoins_storable.trim]
    exact CCoins.kept_of_storable CCoins.generatorKeys_inverts CCoins.generatorCoins_storable CCoins.generatorCoins_whole (by decide)
  refine ⟨answers, s, base', ran, flushed, ?_⟩
  cases ran
  have agrees := (simulated (.cons trivial (.cons (leaves_constant kept 1 _) (.cons trivial (.cons trivial (.cons trivial .nil)))))).2 1
  exact agrees

def mixedCache : CCoinsViewCache :=
  { cacheCoins := AList.insert 1 { coins := CCoins.mixedCoins, dirty := true, fresh := true } ∅ }

theorem mixedCache_flushed (written : CCoins.mixedCoins.serialize CCoins.noKeys = some writes) :
    flushAll 1 ⟨[mixedCache], { keys := CCoins.noKeys }⟩ =
      some ⟨[], { keys := CCoins.noKeys, db := AList.insert 1 writes.bytes ∅ }⟩ := by
  have stored : CCoinsViewDB.batchWriteCoins { keys := CCoins.noKeys } 1 CCoins.mixedCoins =
      some { keys := CCoins.noKeys, db := AList.insert 1 writes.bytes ∅ } := by
    rw [CCoinsViewDB.batchWriteCoins, if_neg (by decide), written]
    rfl
  have whole : CCoinsViewDB.batchWrite { keys := CCoins.noKeys } mixedCache.cacheCoins mixedCache.hashBlock =
      (CCoinsViewDB.batchWriteCoins { keys := CCoins.noKeys } 1 CCoins.mixedCoins).bind some := rfl
  simp only [flushAll, flush, whole, stored]
  rfl

/-- Coins that remember their rounds of mixing forget them in the database. -/
theorem mixed_coins_forgotten :
    ¬∀ base ops, ∃ answers s base', Run.run step ⟨[], base⟩ ops = some (answers, s) ∧
      flushAll s.caches.length s = some ⟨[], base'⟩ ∧
      Run.Explains PlainStack.Shows PlainStack.next { base := fun txid => (base.getCoins txid).getD {} } ops answers ∧
      ∀ txid, ((base'.getCoins txid).getD {}).eqv
        ((Run.follow PlainStack.next { base := fun txid => (base.getCoins txid).getD {} } ops answers).top txid) = true := by
  intro always
  have trim := CCoins.mixedCoins_storable.trim
  have inverts : CCoins.noKeys.Inverts := fun _ _ _ valid => absurd valid Bool.false_ne_true
  have header := CCoins.headerFits_of_length (show CCoins.mixedCoins.vout.length + 6 ≤ 2 ^ 31 by decide)
  obtain ⟨writes, written, reads⟩ := CCoins.mixedCoins_storable.reads inverts header
  have read := reads []
  rw [List.append_nil] at read
  obtain ⟨answers, s, base', ran, flushed, _, agrees⟩ :=
    always { keys := CCoins.noKeys } [.cover, .modify 1 fun _ => CCoins.mixedCoins]
  have done : Run.run step ⟨[], { keys := CCoins.noKeys }⟩ [.cover, .modify 1 fun _ => CCoins.mixedCoins] =
      some ([.done, .coins (some {})], ⟨[mixedCache], { keys := CCoins.noKeys }⟩) := rfl
  rw [done] at ran
  cases ran
  have last := mixedCache_flushed written
  rw [show List.length [mixedCache] = 1 from rfl, last] at flushed
  cases flushed
  have found : CCoinsViewDB.getCoins { keys := CCoins.noKeys, db := AList.insert 1 writes.bytes ∅ } 1 =
      some { CCoins.mixedCoins with vout := CCoins.mixedCoins.vout.map CCoins.readBack } := by
    simp only [CCoinsViewDB.getCoins, AList.lookup_insert, Option.bind_eq_bind, Option.bind_some, read]
    rfl
  have shown := agrees 1
  rw [found] at shown
  exact absurd shown (by decide)

end CoinsStack

end SchillingCoin
