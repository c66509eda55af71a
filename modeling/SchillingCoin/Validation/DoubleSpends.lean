import SchillingCoin.Consensus.Merkle
import SchillingCoin.Validation.Undo

/-!
The assertion of `UpdateCoins` that every input can be spent, while `ConnectBlock` connects the transactions of a block that has passed
`CheckBlock`, and how an outpoint can be spent again in the same block.
-/

namespace SchillingCoin

open Checked (refuse)

def spendAsserts : Reject := .abort "UpdateCoins"

theorem orAbort_ne (other : Reject.abort reason ≠ spendAsserts) (o : Option α) : orAbort reason o ≠ .error spendAsserts := by
  cases o with
  | none => exact fun failed => other (Except.error.inj failed)
  | some a => exact nofun

variable {view : CoinsView} {ctx : ConnectContext} {tx : CTransaction} {st : ConnectState}

theorem checkInputCoins_ne (nValueIn : Int) (vin : List CTxIn) :
    checkInputCoins network view nSpendHeight nValueIn vin ≠ .error spendAsserts := by
  induction vin generalizing nValueIn with
  | nil => exact fun stop => by cases stop
  | cons txin rest ih =>
    unfold checkInputCoins
    dsimp only
    split
    · exact fun stop => by cases stop
    · split
      · exact fun stop => by cases stop
      · exact ih _

theorem checkFee_ne (network : Network) (tx : CTransaction) (nValueIn : Int) : checkFee network tx nValueIn ≠ .error spendAsserts := by
  unfold checkFee
  split
  · exact nofun
  · apply Checked.bind_ne_error (orAbort_ne (by decide) _)
    intro nValueOut _
    dsimp only
    apply Checked.bind_ne_error (Checked.refuse_ne_error (by decide))
    intro _ _
    exact Checked.bind_ne_error (Checked.refuse_ne_error (by decide)) fun _ _ => Checked.refuse_ne_error (by decide)

theorem checkInputs_ne (s : ChainState) (checks : Checks) (view : CoinsView) (tx : CTransaction) (fScriptChecks cltv : Bool) :
    checkInputs s checks view tx fScriptChecks cltv ≠ .error spendAsserts := by
  unfold checkInputs
  split
  · exact nofun
  · apply Checked.bind_ne_error (Checked.refuse_ne_error (by decide))
    intro _ _
    apply Checked.bind_ne_error (orAbort_ne (by decide) _)
    intro pindexPrev _
    apply Checked.bind_ne_error (checkInputCoins_ne _ _)
    intro nValueIn _
    exact Checked.bind_ne_error (checkFee_ne _ _ _) fun _ _ => Checked.refuse_ne_error (by decide)

theorem connectInputs_ne (ctx : ConnectContext) (view : CoinsView) (totals : BlockTotals) (tx : CTransaction) :
    connectInputs ctx view totals tx ≠ .error spendAsserts := by
  unfold connectInputs
  apply Checked.bind_ne_error (Checked.refuse_ne_error (by decide))
  intro _ _
  apply Checked.bind_ne_error (orAbort_ne (by decide) _)
  intro spent _
  apply Checked.bind_ne_error (Checked.refuse_ne_error (by decide))
  intro _ _
  apply Checked.bind_ne_error (orAbort_ne (by decide) _)
  intro nValueIn _
  apply Checked.bind_ne_error
  · unfold addFee
    split
    · exact fun stop => by cases stop
    · exact Checked.bind_ne_error (orAbort_ne (by decide) _) fun _ _ stop => by cases stop
  · intro nFees _
    exact Checked.bind_ne_error (checkInputs_ne _ _ _ _ _ _) fun _ _ stop => by cases stop

theorem connectTxInputs_ne (ctx : ConnectContext) (view : CoinsView) (totals : BlockTotals) (tx : CTransaction) :
    connectTxInputs ctx view totals tx ≠ .error spendAsserts := by
  unfold connectTxInputs
  split
  · exact nofun
  · split
    · exact connectInputs_ne ctx view totals tx
    · exact nofun

theorem connectTxInputs_haveInputs (spends : tx.spendsCoins = true) (passed : connectTxInputs ctx view totals tx = .ok totals') :
    ∀ o ∈ tx.prevouts, view.isOutputAvailable o = true := by
  obtain ⟨base, zerocoin⟩ := CTransaction.spendsCoins_iff.mp spends
  unfold connectTxInputs at passed
  rw [zerocoin, base, if_neg (by simp), if_pos (by rfl)] at passed
  exact CoinsView.available_of_haveInputs spends (connectInputs_ok passed).1

theorem updateCoins_of_available {v : CoinsView}
    (available : tx.spendsCoins = true → ∀ o ∈ tx.prevouts, v.isOutputAvailable o = true)
    (distinct : tx.spendsCoins = true → tx.prevouts.Nodup) (nHeight : Nat) :
    ∃ w txundo, v.updateCoins tx nHeight = some (w, txundo) := by
  unfold CoinsView.updateCoins
  rw [← CTransaction.spendsCoins]
  cases spends : tx.spendsCoins with
  | false => exact ⟨_, _, rfl⟩
  | true =>
    obtain ⟨w, undos, spent, _⟩ := CoinsView.spendInputs_of_available
      (fun txin member => available spends _ (List.mem_map_of_mem member)) (distinct spends)
    rw [if_pos rfl, spent]
    exact ⟨_, _, rfl⟩

theorem checkTransaction_prevouts (passed : checkTransaction checks network tx zerocoin cold = .ok ())
    (spends : tx.spendsCoins = true) : tx.prevouts.Nodup := by
  obtain ⟨_, passed⟩ := Checked.after_refuse passed
  obtain ⟨_, passed⟩ := Checked.after_refuse passed
  obtain ⟨_, passed⟩ := Checked.after_refuse passed
  obtain ⟨_, _, passed⟩ := Checked.bind_ok passed
  obtain ⟨_, duplicates, _⟩ := Checked.bind_ok passed
  have spendFree : ∀ i ∈ tx.vin, i.isZerocoinSpend = false := by
    have none := (CTransaction.spendsCoins_iff.mp spends).2
    simpa [CTransaction.hasZerocoinSpendInputs] using none
  have distinct := checkDuplicateInputs_nodup spendFree List.nodup_nil duplicates
  rw [List.append_nil] at distinct
  exact distinct

theorem connectTx_ne {i : Nat} (distinct : tx.spendsCoins = true → tx.prevouts.Nodup) :
    connectTx ctx i st tx ≠ .error spendAsserts := by
  unfold connectTx
  apply Checked.bind_ne_error (Checked.refuse_ne_error (by decide))
  intro _ _
  dsimp only
  apply Checked.bind_ne_error (Checked.refuse_ne_error (by decide))
  intro _ _
  apply Checked.bind_ne_error (Checked.refuse_ne_error (by decide))
  intro _ _
  apply Checked.bind_ne_error (Checked.refuse_ne_error (by decide))
  intro _ _
  apply Checked.bind_ne_error (connectTxInputs_ne _ _ _ _)
  intro totals inputs
  apply Checked.bind_ne_error (orAbort_ne (by decide) _)
  intro nValueOut _
  obtain ⟨w, txundo, updated⟩ := updateCoins_of_available (fun spends => connectTxInputs_haveInputs spends inputs) distinct ctx.nHeight
  rw [updated]
  exact nofun

theorem connectTxs_ne (distinct : ∀ tx ∈ txs, tx.spendsCoins = true → tx.prevouts.Nodup) (i : Nat) (st : ConnectState) :
    connectTxs ctx i st txs ≠ .error spendAsserts := by
  induction txs generalizing i st with
  | nil => exact nofun
  | cons tx rest ih =>
    apply Checked.bind_ne_error (connectTx_ne (distinct tx List.mem_cons_self))
    intro mid _
    exact ih (fun later member => distinct later (List.mem_cons_of_mem _ member)) _ _

theorem connectTxs_append (first later : List CTransaction) (i : Nat) (st : ConnectState) :
    connectTxs ctx i st (first ++ later) = (connectTxs ctx i st first >>= fun mid => connectTxs ctx (i + first.length) mid later) := by
  induction first generalizing i st with
  | nil => rfl
  | cons tx rest ih =>
    show (connectTx ctx i st tx >>= fun mid => connectTxs ctx (i + 1) mid (rest ++ later)) =
      ((connectTx ctx i st tx >>= fun mid => connectTxs ctx (i + 1) mid rest) >>= fun mid => connectTxs ctx (i + (tx :: rest).length) mid later)
    cases connectTx ctx i st tx with
    | error e => rfl
    | ok mid =>
      have place : i + (tx :: rest).length = i + 1 + rest.length := by
        rw [List.length_cons]
        omega
      rw [place]
      exact ih _ _

theorem stays_spent (connected : connectTxs ctx i st txs = .ok st') (spent : st.view.isOutputAvailable o = false) :
    st'.view.isOutputAvailable o = false ∨ ∃ first again later mid, txs = first ++ again :: later ∧ again.hash = o.hash ∧
      connectTxs ctx i st first = .ok mid ∧ (mid.view.coinsAt o.hash).isPruned = true := by
  induction txs generalizing i st with
  | nil =>
    obtain rfl := Except.ok.inj connected
    exact Or.inl spent
  | cons tx rest ih =>
    obtain ⟨mid, step, others⟩ := Checked.bind_ok connected
    by_cases same : tx.hash = o.hash
    · obtain ⟨_, pass⟩ := connectTx_ok step
      exact Or.inr ⟨[], tx, rest, st, rfl, same, rfl, same ▸ pass.pruned⟩
    · have still : mid.view.isOutputAvailable o = false := by
        rw [connectTx_outputs step, if_neg (Ne.symm same), spent, Bool.false_and]
      rcases ih others still with gone | ⟨first, again, later, mid', split, hash, run, pruned⟩
      · exact Or.inl gone
      · refine Or.inr ⟨tx :: first, again, later, mid', by rw [split]; rfl, hash, ?_, pruned⟩
        show (connectTx ctx i st tx >>= fun mid => connectTxs ctx (i + 1) mid first) = _
        rw [step]
        exact run

/-- `ConnectBlock` comes to `UpdateCoins` for a transaction after those before it. -/
def ComesToUpdate (ctx : ConnectContext) (view : CoinsView) (done : List CTransaction) (tx : CTransaction) (st : ConnectState) : Prop :=
  connectTxs ctx 0 { view } done = .ok st ∧ ∃ totals totals', connectTxInputs ctx st.view totals tx = .ok totals'

/-- Some of the transactions has the hash of the outpoint, and all outputs with this hash were spent when it was connected. -/
def ConnectedAgain (ctx : ConnectContext) (view : CoinsView) (done between : List CTransaction) (o : COutPoint) : Prop :=
  ∃ first again later st, between = first ++ again :: later ∧ again.hash = o.hash ∧ connectTxs ctx 0 { view } (done ++ first) = .ok st ∧
    ∀ n, st.view.isOutputAvailable ⟨o.hash, n⟩ = false

theorem connectedAgain_of_spent (connected : connectTxs ctx 0 { view } (done ++ tx :: between) = .ok st)
    (spends : tx.spendsCoins = true) (spent : o ∈ tx.prevouts) (available : st.view.isOutputAvailable o = true) :
    ConnectedAgain ctx view (done ++ [tx]) between o := by
  rw [connectTxs_append] at connected
  obtain ⟨before, run, connected⟩ := Checked.bind_ok connected
  obtain ⟨after, step, others⟩ := Checked.bind_ok connected
  obtain ⟨_, pass⟩ := connectTx_ok step
  have had := CoinsView.available_of_haveInputs spends (pass.spends spends).1 o spent
  have other : o.hash ≠ tx.hash := by
    intro same
    rw [CoinsView.isOutputAvailable_of_isPruned pass.pruned same] at had
    cases had
  have gone : after.view.isOutputAvailable o = false := by
    rw [connectTx_outputs step, if_neg other, spends, decide_eq_true spent, Bool.and_self, Bool.not_true, Bool.and_false]
  rcases stays_spent others gone with still | ⟨first, again, later, mid, split, hash, rerun, pruned⟩
  · rw [still] at available
    cases available
  · refine ⟨first, again, later, mid, split, hash, ?_, fun n => CoinsView.isOutputAvailable_of_isPruned pruned rfl⟩
    rw [List.append_assoc, connectTxs_append, run, Checked.ok_bind]
    show (connectTx ctx _ before tx >>= fun mid => connectTxs ctx _ mid first) = _
    rw [step]
    exact rerun

/-- In a block that has passed `CheckBlock` every spend that `UpdateCoins` makes succeeds, and an outpoint is spent again only after its
transaction has been connected again, when all of its outputs had been spent. -/
theorem updateCoins_never_asserts {s : ChainState} {checks : Checks} {block : CBlock} {fCheckMerkleRoot : Bool} {budget : CBudgetManager}
    (passed : s.checkBlock checks block fCheckMerkleRoot = .ok budget) (ctx : ConnectContext) (view : CoinsView) :
    connectTxs ctx 0 { view } block.vtx ≠ .error spendAsserts ∧
    (∀ done tx rest st, block.vtx = done ++ tx :: rest → ComesToUpdate ctx view done tx st → tx.spendsCoins = true →
      tx.prevouts.Nodup ∧ ∃ after undos, st.view.spendInputs tx.vin = some (after, undos)) ∧
    (∀ done tx between again rest st, block.vtx = done ++ tx :: between ++ again :: rest →
      ComesToUpdate ctx view (done ++ tx :: between) again st → tx.spendsCoins = true → again.spendsCoins = true →
        ∀ o ∈ tx.prevouts, o ∈ again.prevouts → ConnectedAgain ctx view (done ++ [tx]) between o) := by
  obtain ⟨_, _, transactions⟩ := checkBlock_ok passed
  have distinct : ∀ tx ∈ block.vtx, tx.spendsCoins = true → tx.prevouts.Nodup :=
    fun tx member => checkTransaction_prevouts (transactions tx member)
  refine ⟨connectTxs_ne distinct 0 _, ?_, ?_⟩
  · intro done tx rest st split comes spends
    obtain ⟨_, _, _, inputs⟩ := comes
    have own := distinct tx (by simp [split]) spends
    obtain ⟨w, undos, spent, _⟩ := CoinsView.spendInputs_of_available
      (fun txin member => connectTxInputs_haveInputs spends inputs _ (List.mem_map_of_mem member)) own
    exact ⟨own, w, undos, spent⟩
  · intro done tx between again rest st split comes spends spendsAgain o spent wanted
    obtain ⟨run, _, _, inputs⟩ := comes
    exact connectedAgain_of_spent run spends spent (connectTxInputs_haveInputs spendsAgain inputs o wanted)

theorem mining_block_never_asserts : ∃ budget, (nodeAt 59).checkBlock passingChecks miningBlock true = .ok budget ∧
    ∀ ctx, connectTxs ctx 0 { view := minedView } miningBlock.vtx ≠ .error spendAsserts := by
  have passes : ((nodeAt 59).checkBlock passingChecks miningBlock true).toOption.isSome = true := by decide
  obtain ⟨budget, found⟩ := Option.isSome_iff_exists.mp passes
  have passed := Checked.ok_of_toOption found
  exact ⟨budget, passed, fun ctx => (updateCoins_never_asserts passed ctx minedView).1⟩

def fromZerocoin : CTransaction := { hash := 3000, vin := [{ prevout := ⟨0, 0⟩, scriptSig := [OP_ZEROCOINSPEND] }], vout := [payTo 5] }

def twiceBlock : CBlock where
  hash := 7
  hashPrevBlock := 10059
  vtx := [mintTx 2000 [payTo 1], fromZerocoin, spendTx 3001 [⟨3000, 0⟩] [payTo 5], fromZerocoin, spendTx 3002 [⟨3000, 0⟩] [payTo 5]]

def merkleChecks : Checks :=
  { passingChecks with
    merkleTreeMutated := fun block => (Merkle.blockMerkleRoot (fun a b => 3 * a + 5 * b + 7) block).any Prod.snd
    zerocoinSpent := fun _ => 5 * COIN }

def zerocoinNode : ChainState := { nodeAt 59 with zerocoinMaintenance := 4070908800 }

/-- The block is connected although it spends one outpoint twice. -/
theorem outpoint_spent_twice : ((zerocoinNode.checkBlock merkleChecks twiceBlock true).toOption.isSome = true ∧
    (connectBlock zerocoinNode merkleChecks twiceBlock (positionAfter 59).pindex (some (positionAfter 59).pprev) minedView).toOption.isSome = true) ∧
    ¬twiceBlock.spentOutpoints.Nodup := by
  refine ⟨⟨by decide, by decide⟩, by decide⟩

end SchillingCoin
