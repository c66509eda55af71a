import Mathlib.Data.Prod.Lex
import SchillingCoin.Lib.Greedy
import SchillingCoin.Lib.Ranking
import SchillingCoin.Masternode.BudgetVotes

/-!
The proposals of the next budget cycle, after `CBudgetManager::GetBudget`: the passing proposals by their votes, each when
its amount still fits.
-/

namespace SchillingCoin

open Greedy

def Network.nProposalEstablishmentTime : Network → Int
  | .main => 60 * 60 * 24
  | .testnet | .regtest => 60 * 5

namespace CBudgetProposal

def cleanAndRemove (ctx : BudgetContext) (p : CBudgetProposal) : CBudgetProposal :=
  { p with mapVotes := p.mapVotes.mapVal fun v => { v with fValid := ctx.find v.vin } }

def isEstablished (network : Network) (nAdjustedTime : Int) (p : CBudgetProposal) : Bool :=
  decide (p.nTime < nAdjustedTime - network.nProposalEstablishmentTime)

def isPassing (ctx : BudgetContext) (nAdjustedTime : Int) (nBlockStartBudget nBlockEndBudget : Int) (mnCount : Nat) (fValid : Bool)
    (p : CBudgetProposal) : Bool :=
  if !fValid then false
  else if ctx.tipHeight.isNone then false
  else if p.nBlockStart > nBlockStartBudget then false
  else if p.nBlockEnd < nBlockEndBudget then false
  else if p.getYeas - p.getNays ≤ (mnCount / 10 : Nat) then false
  else p.isEstablished ctx.network nAdjustedTime

end CBudgetProposal

/-- The fields of a proposal that are neither sent nor stored. No constructor writes `nAlloted`. -/
structure ProposalMemory where
  nAlloted : Int
  fValid : Bool := true

structure BudgetState where
  man : CBudgetManager
  memory : uint256 → ProposalMemory

structure SortedProposal where
  hash : uint256
  proposal : CBudgetProposal
  votes : Int

namespace SortedProposal

def rank (e : SortedProposal) : ℤ ×ₗ ℕ := toLex (e.votes, e.proposal.nFeeTXHash.toNat)

def amount (e : SortedProposal) : Int := e.proposal.nAmount

end SortedProposal

/-- What `std::sort` by `sortProposalsByVotes` promises. -/
def SortsByVotes (sort : List SortedProposal → List SortedProposal) : Prop := ∀ l, IsRanking SortedProposal.rank l (sort l)

namespace BudgetState

def nextCycle (network : Network) (nHeight : Int) : Int :=
  nHeight - nHeight.tmod network.consensus.nBudgetCycleBlocks + network.consensus.nBudgetCycleBlocks

def isPassing (ctx : BudgetContext) (nAdjustedTime : Int) (s : BudgetState) (hash : uint256) (p : CBudgetProposal) : Bool :=
  let nBlockStart := nextCycle ctx.network (ctx.tipHeight.getD 0)
  let nBlockEnd := nBlockStart + ctx.network.consensus.nBudgetCycleBlocks - 1
  p.isPassing ctx nAdjustedTime nBlockStart nBlockEnd s.man.countEnabled (s.memory hash).fValid

def setAllotted (memory : uint256 → ProposalMemory) (hash : uint256) (nAllotedIn : Int) : uint256 → ProposalMemory :=
  Function.update memory hash { memory hash with nAlloted := nAllotedIn }

def grabBudgets (passing : SortedProposal → Bool) (nTotalBudget : Int) :
    List SortedProposal → Int → (uint256 → ProposalMemory) → List SortedProposal × (uint256 → ProposalMemory)
  | [], _, memory => ([], memory)
  | e :: sorted, nBudgetAllocated, memory =>
    if passing e then
      if int64 (e.amount + nBudgetAllocated) ≤ nTotalBudget then
        let rest := grabBudgets passing nTotalBudget sorted (int64 (nBudgetAllocated + e.amount)) (setAllotted memory e.hash e.amount)
        (e :: rest.1, rest.2)
      else grabBudgets passing nTotalBudget sorted nBudgetAllocated (setAllotted memory e.hash 0)
    else grabBudgets passing nTotalBudget sorted nBudgetAllocated memory

def refreshed (ctx : BudgetContext) (s : BudgetState) : BudgetState :=
  { s with man := { s.man with mapProposals := s.man.mapProposals.mapVal fun p => p.cleanAndRemove ctx } }

variable (s : BudgetState)

def pairs : List SortedProposal :=
  s.man.mapProposals.entries.map fun e => { hash := e.1, proposal := e.2, votes := e.2.getYeas - e.2.getNays }

def getBudget (sort : List SortedProposal → List SortedProposal) (ctx : BudgetContext) (nAdjustedTime : Int) (s : BudgetState) :
    List SortedProposal × BudgetState :=
  let s := s.refreshed ctx
  let vBudgetPorposalsSort := sort s.pairs
  match ctx.tipHeight with
  | none => ([], s)
  | some nHeight =>
    let nTotalBudget := ctx.getTotalBudget (nextCycle ctx.network nHeight)
    let grabbed := grabBudgets (fun e => s.isPassing ctx nAdjustedTime e.hash e.proposal) nTotalBudget vBudgetPorposalsSort 0 s.memory
    (grabbed.1, { s with memory := grabbed.2 })

section Loop

variable {passing : SortedProposal → Bool} {nTotalBudget : Int}

variable (memory : uint256 → ProposalMemory) (hash : uint256) (sorted : List SortedProposal)

theorem setAllotted_self (n : Int) : (setAllotted memory hash n hash).nAlloted = n := by
  rw [setAllotted, Function.update_self]

theorem setAllotted_other {hash : uint256} (n : Int) (different : other ≠ hash) :
    setAllotted memory hash n other = memory other := Function.update_of_ne different _ _

theorem setAllotted_fValid (other : uint256) (n : Int) : (setAllotted memory hash n other).fValid = (memory other).fValid := by
  by_cases same : other = hash
  · rw [same, setAllotted, Function.update_self]
  · rw [setAllotted_other memory n same]

theorem grabBudgets_fValid (nBudgetAllocated : Int) (memory : uint256 → ProposalMemory) (hash : uint256) :
    ((grabBudgets passing nTotalBudget sorted nBudgetAllocated memory).2 hash).fValid = (memory hash).fValid := by
  induction sorted generalizing nBudgetAllocated memory with
  | nil => rfl
  | cons e sorted ih =>
    rw [grabBudgets]
    split
    · split
      · exact (ih _ _).trans (setAllotted_fValid memory e.hash hash _)
      · exact (ih _ _).trans (setAllotted_fValid memory e.hash hash _)
    · exact ih _ _

theorem grabBudgets_other (nBudgetAllocated : Int) (memory : uint256 → ProposalMemory) {hash : uint256}
    (other : ∀ e ∈ sorted, passing e = true → hash ≠ e.hash) :
    (grabBudgets passing nTotalBudget sorted nBudgetAllocated memory).2 hash = memory hash := by
  induction sorted generalizing nBudgetAllocated memory with
  | nil => rfl
  | cons e sorted ih =>
    have rest : ∀ e' ∈ sorted, passing e' = true → hash ≠ e'.hash := fun e' member => other e' (List.mem_cons_of_mem e member)
    rw [grabBudgets]
    split
    · next passes =>
      have different := other e List.mem_cons_self passes
      split
      · exact (ih _ _ rest).trans (setAllotted_other memory _ different)
      · exact (ih _ _ rest).trans (setAllotted_other memory _ different)
    · exact ih _ _ rest

theorem grabBudgets_greedy (total : 0 ≤ nTotalBudget) (sorted : List SortedProposal)
    (amounts : ∀ e ∈ sorted, 0 ≤ e.amount ∧ e.amount + nTotalBudget < 2 ^ 63) {nBudgetAllocated : Int}
    (allocated : 0 ≤ nBudgetAllocated ∧ nBudgetAllocated ≤ nTotalBudget) (memory : uint256 → ProposalMemory) :
    (grabBudgets passing nTotalBudget sorted nBudgetAllocated memory).1 =
      greedy SortedProposal.amount nTotalBudget nBudgetAllocated (sorted.filter passing) := by
  induction sorted generalizing nBudgetAllocated memory with
  | nil => rfl
  | cons e sorted ih =>
    have rest : ∀ e' ∈ sorted, 0 ≤ e'.amount ∧ e'.amount + nTotalBudget < 2 ^ 63 := fun e' member =>
      amounts e' (List.mem_cons_of_mem e member)
    rw [grabBudgets]
    split
    · next passes =>
      have own := amounts e List.mem_cons_self
      have sum : int64 (e.amount + nBudgetAllocated) = e.amount + nBudgetAllocated := Int.bmod_eq_of_le (by omega) (by omega)
      have sum' : int64 (nBudgetAllocated + e.amount) = e.amount + nBudgetAllocated := by rw [Int.add_comm, sum]
      rw [List.filter_cons_of_pos passes, greedy, sum, sum']
      split
      · next fits => exact congrArg (e :: ·) (ih rest ⟨by omega, fits⟩ _)
      · exact ih rest allocated _
    · next fails =>
      rw [List.filter_cons_of_neg fails]
      exact ih rest allocated _

theorem grabBudgets_mem {sorted : List SortedProposal} {memory : uint256 → ProposalMemory} {e : SortedProposal}
    (returned : e ∈ (grabBudgets passing nTotalBudget sorted nBudgetAllocated memory).1) : e ∈ sorted := by
  induction sorted generalizing nBudgetAllocated memory with
  | nil => exact returned
  | cons d sorted ih =>
    rw [grabBudgets] at returned
    split at returned
    · split at returned
      · rcases List.mem_cons.mp returned with rfl | later
        · exact List.mem_cons_self
        · exact List.mem_cons_of_mem d (ih later)
      · exact List.mem_cons_of_mem d (ih returned)
    · exact List.mem_cons_of_mem d (ih returned)

theorem grabBudgets_allotted (distinct : (sorted.map SortedProposal.hash).Nodup) (nBudgetAllocated : Int)
    (memory : uint256 → ProposalMemory) {e : SortedProposal} (member : e ∈ sorted) (passes : passing e = true) :
    (e ∈ (grabBudgets passing nTotalBudget sorted nBudgetAllocated memory).1 ∧
        ((grabBudgets passing nTotalBudget sorted nBudgetAllocated memory).2 e.hash).nAlloted = e.amount) ∨
      (e ∉ (grabBudgets passing nTotalBudget sorted nBudgetAllocated memory).1 ∧
        ((grabBudgets passing nTotalBudget sorted nBudgetAllocated memory).2 e.hash).nAlloted = 0) := by
  induction sorted generalizing nBudgetAllocated memory with
  | nil => cases member
  | cons d sorted ih =>
    obtain ⟨fresh, distinct⟩ := List.nodup_cons.mp distinct
    have apart : ∀ e' ∈ sorted, e'.hash ≠ d.hash := fun e' inside same => fresh (same ▸ List.mem_map_of_mem inside)
    rw [grabBudgets]
    rcases List.mem_cons.mp member with rfl | later
    · -- the memory of `e` is written here and not again
      have kept := fun (n : Int) (memory : uint256 → ProposalMemory) =>
        @grabBudgets_other passing nTotalBudget sorted n memory e.hash fun e' inside _ same => apart e' inside same.symm
      rw [if_pos passes]
      split
      · refine Or.inl ⟨List.mem_cons_self, ?_⟩
        simp only
        rw [kept, setAllotted_self]
      · refine Or.inr ⟨fun inside => apart e (grabBudgets_mem inside) rfl, ?_⟩
        rw [kept, setAllotted_self]
    · split
      · split
        · rcases ih distinct (int64 (nBudgetAllocated + d.amount)) (setAllotted memory d.hash d.amount) later with found | absent
          · exact Or.inl ⟨List.mem_cons_of_mem d found.1, found.2⟩
          · refine Or.inr ⟨fun inside => ?_, absent.2⟩
            rcases List.mem_cons.mp inside with rfl | inside
            · exact apart e later rfl
            · exact absent.1 inside
        · exact ih distinct _ _ later
      · exact ih distinct _ _ later

end Loop

/-- What `CBudgetProposal::IsValid` makes sure of. -/
def AmountChecked (p : CBudgetProposal) : Prop := 10 * COIN ≤ p.nAmount ∧ ∃ (ctx : BudgetContext) (nHeight : Int), p.nAmount ≤ ctx.getTotalBudget nHeight

def AmountsChecked (m : CBudgetManager) : Prop := ∀ hash p, m.mapProposals.lookup hash = some p → AmountChecked p

theorem amountChecked_of_valid {p : CBudgetProposal} (valid : (p.isValid hashes ctx countEnabled).1 = true) :
    AmountChecked (p.isValid hashes ctx countEnabled).2 := by
  rw [(CBudgetProposal.isValid_eq hashes ctx countEnabled p valid).2]
  unfold CBudgetProposal.isValid at valid
  iterate 3
    have passed := Checked.not_stopped valid
    rw [if_neg passed] at valid
    clear passed
  have enough := Checked.not_stopped valid
  rw [if_neg enough] at valid
  iterate 3
    have passed := Checked.not_stopped valid
    rw [if_neg passed] at valid
    clear passed
  have within := Checked.not_stopped valid
  exact ⟨Int.not_lt.mp enough, ctx, p.nBlockStart, Int.not_lt.mp within⟩

section Messages

variable (hashes : BudgetHashes) {m : CBudgetManager}

omit hashes in
theorem AmountsChecked.insert (checked : AmountsChecked m) (amount : AmountChecked p) (hash : uint256) :
    AmountsChecked { m with mapProposals := m.mapProposals.insert hash p } := by
  intro other q found
  rw [StdMap.lookup_insert_ite] at found
  split at found
  · obtain rfl := Option.some.inj found
    exact amount
  · exact checked other q found

theorem AmountsChecked.updateProposal (checked : AmountsChecked m) (ctx : BudgetContext) (pfrom : Bool) (vote : CBudgetVote) :
    AmountsChecked (m.updateProposal hashes ctx pfrom vote).2 := by
  unfold CBudgetManager.updateProposal
  split
  · split
    · exact checked
    · exact checked
  · next proposal known =>
    split
    · next updated added =>
      unfold CBudgetProposal.addOrUpdateVote at added
      generalize Ballot.addOrUpdate (proposalRules hashes) ctx.getTime proposal.mapVotes vote = votes at added
      cases votes with
      | error _ => cases added
      | ok votes =>
        obtain rfl := Except.ok.inj added
        have amount : AmountChecked { proposal with mapVotes := votes } := checked _ proposal known
        exact checked.insert amount _
    · exact checked

theorem updateFinalizedBudget_proposals (m : CBudgetManager) (ctx : BudgetContext) (pfrom : Bool) (vote : CFinalizedBudgetVote) :
    (m.updateFinalizedBudget hashes ctx pfrom vote).2.mapProposals = m.mapProposals := by
  unfold CBudgetManager.updateFinalizedBudget
  split
  · split <;> rfl
  · split <;> rfl

theorem AmountsChecked.checkOrphanVotes (checked : AmountsChecked m) (ctx : BudgetContext) : AmountsChecked (m.checkOrphanVotes hashes ctx) := by
  unfold CBudgetManager.checkOrphanVotes
  apply List.foldlRecOn (motive := AmountsChecked)
  · apply List.foldlRecOn (motive := AmountsChecked)
    · exact checked
    · intro m checked e _
      have updated := checked.updateProposal hashes ctx false e.2
      unfold CBudgetManager.checkOrphanProposalVote
      simp only
      split
      · exact updated
      · exact updated
  · intro m checked e _
    have same := updateFinalizedBudget_proposals hashes m ctx false e.2
    intro hash p found
    refine checked hash p (same ▸ ?_)
    unfold CBudgetManager.checkOrphanFinalizedVote at found
    simp only at found
    split at found
    · exact found
    · exact found

theorem AmountsChecked.addProposal (checked : AmountsChecked m) (ctx : BudgetContext) (p : CBudgetProposal) :
    AmountsChecked (m.addProposal hashes ctx p) := by
  unfold CBudgetManager.addProposal
  simp only
  split
  · exact checked
  · next valid =>
    split
    · exact checked
    · exact checked.insert (amountChecked_of_valid (by simpa using valid)) _

theorem AmountsChecked.addFinalizedBudget (checked : AmountsChecked m) (ctx : BudgetContext) (b : CFinalizedBudget) :
    AmountsChecked (m.addFinalizedBudget hashes ctx b) := by
  unfold CBudgetManager.addFinalizedBudget
  simp only
  split
  · exact checked
  · split
    · exact checked
    · exact checked

theorem AmountsChecked.processMessage (checked : AmountsChecked m) (ctx : BudgetContext) (message : CBudgetManager.Message) :
    AmountsChecked (m.processMessage hashes ctx message) := by
  unfold CBudgetManager.processMessage
  split
  · exact checked
  · split
    · exact checked
    · cases message with
      | mprop broadcast =>
        simp only [CBudgetManager.processProposal]
        split
        · exact checked
        · split
          · split
            · exact checked
            · exact checked
          · split
            · exact checked
            · refine AmountsChecked.checkOrphanVotes hashes (AmountsChecked.addProposal hashes ?_ ctx _) ctx
              exact checked
      | mvote vote =>
        simp only [CBudgetManager.processVote]
        split
        · exact checked
        · split
          · exact checked
          · split
            · exact checked
            · refine AmountsChecked.updateProposal hashes ?_ ctx true _
              exact checked
      | fbs broadcast =>
        simp only [CBudgetManager.processFinalizedBudget]
        split
        · exact checked
        · split
          · split
            · exact checked
            · exact checked
          · split
            · exact checked
            · refine AmountsChecked.checkOrphanVotes hashes (AmountsChecked.addFinalizedBudget hashes ?_ ctx _) ctx
              exact checked
      | fbvote vote =>
        simp only [CBudgetManager.processFinalizedVote]
        split
        · exact checked
        · split
          · exact checked
          · split
            · exact checked
            · intro hash p found
              rw [updateFinalizedBudget_proposals] at found
              exact checked hash p found

/-- Every proposal that is stored after any messages asks for at least the least amount and for no more than the budget of some height. -/
theorem run_amountsChecked (countEnabled : Nat) (messages : List (BudgetContext × CBudgetManager.Message)) :
    AmountsChecked (CBudgetManager.run hashes { countEnabled := countEnabled } messages) := by
  unfold CBudgetManager.run
  apply List.foldlRecOn (motive := AmountsChecked)
  · intro hash p found
    cases found
  · exact fun m checked d _ => checked.processMessage hashes d.1 d.2

end Messages

section Allocation

variable (ctx : BudgetContext) (nAdjustedTime : Int)

def totalBudget : Int := ctx.getTotalBudget (nextCycle ctx.network (ctx.tipHeight.getD 0))

structure GreedyByVotes (returned : List SortedProposal) (s : BudgetState) : Prop where
  passing : ∀ e ∈ returned, e ∈ s.pairs ∧ s.isPassing ctx nAdjustedTime e.hash e.proposal = true
  distinct : (returned.map SortedProposal.hash).Nodup
  ordered : returned.Pairwise fun a b => b.rank ≤ a.rank
  within : spent SortedProposal.amount returned ≤ totalBudget ctx
  /-- A passing proposal that is left out would exceed the total with those that rank before it. -/
  skipped : ∀ e ∈ s.pairs, s.isPassing ctx nAdjustedTime e.hash e.proposal = true → e ∉ returned →
    ∃ before after, returned = before ++ after ∧ (∀ a ∈ before, e.rank ≤ a.rank) ∧ (∀ a ∈ after, a.rank ≤ e.rank) ∧
      totalBudget ctx < e.amount + spent SortedProposal.amount before
  allotted : ∀ e ∈ returned, (s.memory e.hash).nAlloted = e.amount
  nothing : ∀ e ∈ s.pairs, e ∉ returned → (s.memory e.hash).nAlloted = 0

variable {ctx} {nAdjustedTime} {s : BudgetState}

theorem pairs_distinct (s : BudgetState) : (s.pairs.map SortedProposal.hash).Nodup := by
  unfold pairs
  rw [List.map_map]
  exact s.man.mapProposals.nodupKeys

theorem totalBudget_bounds (ctx : BudgetContext) (nHeight : Int) :
    0 ≤ ctx.getTotalBudget nHeight ∧ ctx.getTotalBudget nHeight ≤ 7300 * COIN := by
  unfold BudgetContext.getTotalBudget
  split
  · decide
  · split <;> decide

theorem pairs_amounts (checked : AmountsChecked s.man) : ∀ e ∈ (s.refreshed ctx).pairs, 0 ≤ e.amount ∧ e.amount ≤ 7300 * COIN := by
  intro e member
  obtain ⟨entry, listed, rfl⟩ := List.mem_map.mp member
  have found := StdMap.mem_entries_iff.mp listed
  rw [refreshed, StdMap.lookup_mapVal, Option.map_eq_some_iff] at found
  obtain ⟨p, known, cleaned⟩ := found
  obtain ⟨enough, ctx', nHeight, within⟩ := checked _ p known
  have same : entry.2.nAmount = p.nAmount := by
    rw [← cleaned]
    rfl
  have limit := (totalBudget_bounds ctx' nHeight).2
  have positive : (0 : Int) ≤ 10 * COIN := by decide
  show 0 ≤ entry.2.nAmount ∧ entry.2.nAmount ≤ 7300 * COIN
  omega

theorem ranked_around {e : SortedProposal} (parts : sorted = before ++ e :: after)
    (ordered : sorted.Pairwise fun a b => b.rank ≤ a.rank) : (∀ a ∈ before, e.rank ≤ a.rank) ∧ ∀ a ∈ after, a.rank ≤ e.rank := by
  rw [parts, List.pairwise_append, List.pairwise_cons] at ordered
  exact ⟨fun a member => ordered.2.2 a member e List.mem_cons_self, ordered.2.1.1⟩

theorem isPassing_memory {memory : uint256 → ProposalMemory} (same : ∀ hash, (memory hash).fValid = (s.memory hash).fValid) (hash : uint256)
    (p : CBudgetProposal) : isPassing ctx nAdjustedTime { s with memory := memory } hash p = s.isPassing ctx nAdjustedTime hash p := by
  unfold isPassing
  rw [same]

theorem grabbed_greedy_iff {sorted : List SortedProposal} (ranking : IsRanking SortedProposal.rank (s.refreshed ctx).pairs sorted)
    (checked : AmountsChecked s.man) :
    GreedyByVotes ctx nAdjustedTime
        (grabBudgets (fun e => (s.refreshed ctx).isPassing ctx nAdjustedTime e.hash e.proposal) (totalBudget ctx) sorted 0 s.memory).1
        { s.refreshed ctx with memory := (grabBudgets (fun e => (s.refreshed ctx).isPassing ctx nAdjustedTime e.hash e.proposal)
          (totalBudget ctx) sorted 0 s.memory).2 } ↔
      ∀ e ∈ (s.refreshed ctx).pairs, (s.refreshed ctx).isPassing ctx nAdjustedTime e.hash e.proposal = false →
        (s.memory e.hash).nAlloted = 0 := by
  generalize byPassing : (fun e : SortedProposal => (s.refreshed ctx).isPassing ctx nAdjustedTime e.hash e.proposal) = passing
  have passes_iff : ∀ e : SortedProposal, (s.refreshed ctx).isPassing ctx nAdjustedTime e.hash e.proposal = passing e := congrFun byPassing
  have bounds : 0 ≤ totalBudget ctx ∧ totalBudget ctx ≤ 7300 * COIN := totalBudget_bounds ctx _
  have distinct : (sorted.map SortedProposal.hash).Nodup := ranking.unique (pairs_distinct (s.refreshed ctx))
  have small : 7300 * COIN + 7300 * COIN < 2 ^ 63 := by decide
  have amounts : ∀ e ∈ sorted, 0 ≤ e.amount ∧ e.amount + totalBudget ctx < 2 ^ 63 := by
    intro e member
    have own := @pairs_amounts ctx s checked e (ranking.mem_iff.mp member)
    omega
  have returned := @grabBudgets_greedy passing (totalBudget ctx) bounds.1 sorted amounts 0 ⟨by omega, bounds.1⟩ s.memory
  have same := fun hash => @grabBudgets_fValid passing (totalBudget ctx) sorted 0 s.memory hash
  have unchanged := fun e : SortedProposal =>
    (@isPassing_memory ctx nAdjustedTime (s.refreshed ctx) _ same e.hash e.proposal).trans (passes_iff e)
  have sub : (greedy SortedProposal.amount (totalBudget ctx) 0 (sorted.filter passing)).Sublist sorted :=
    (greedy_sublist _ _ 0 _).trans List.filter_sublist
  have alloc : ∀ e ∈ (s.refreshed ctx).pairs, passing e = true →
      (e ∈ (grabBudgets passing (totalBudget ctx) sorted 0 s.memory).1 ∧
          ((grabBudgets passing (totalBudget ctx) sorted 0 s.memory).2 e.hash).nAlloted = e.amount) ∨
        (e ∉ (grabBudgets passing (totalBudget ctx) sorted 0 s.memory).1 ∧
          ((grabBudgets passing (totalBudget ctx) sorted 0 s.memory).2 e.hash).nAlloted = 0) := fun e member passes =>
    grabBudgets_allotted sorted distinct 0 s.memory (ranking.mem_iff.mpr member) passes
  -- what is not passing is neither returned nor written
  have unpassing : ∀ e ∈ (s.refreshed ctx).pairs, passing e = false →
      e ∉ (grabBudgets passing (totalBudget ctx) sorted 0 s.memory).1 ∧
        (grabBudgets passing (totalBudget ctx) sorted 0 s.memory).2 e.hash = s.memory e.hash := by
    intro e member fails
    constructor
    · intro inside
      rw [returned] at inside
      have passes := (List.mem_filter.mp ((greedy_sublist _ _ 0 _).subset inside)).2
      exact Bool.false_ne_true (fails.symm.trans passes)
    · apply grabBudgets_other
      intro e' inside passes sameHash
      have equal := List.inj_on_of_nodup_map (pairs_distinct (s.refreshed ctx)) member (ranking.mem_iff.mp inside) sameHash
      rw [← equal] at passes
      exact Bool.false_ne_true (fails.symm.trans passes)
  constructor
  · intro allocation e member fails
    rw [passes_iff] at fails
    obtain ⟨outside, kept⟩ := unpassing e member fails
    rw [← kept]
    exact allocation.nothing e member outside
  · intro zero
    constructor
    case passing =>
      intro e inside
      rw [returned] at inside
      have filtered := List.mem_filter.mp ((greedy_sublist _ _ 0 _).subset inside)
      exact ⟨ranking.mem_iff.mp filtered.1, (unchanged e).trans filtered.2⟩
    case distinct =>
      rw [returned]
      exact distinct.sublist (sub.map SortedProposal.hash)
    case ordered =>
      rw [returned]
      exact ranking.sorted.sublist sub
    case within =>
      rw [returned]
      have limit := @spent_le _ SortedProposal.amount _ 0 bounds.1 (sorted.filter passing)
      rwa [Int.zero_add] at limit
    case skipped =>
      intro e member passes outside
      rw [returned] at outside ⊢
      obtain ⟨before, after, parts⟩ := List.append_of_mem
        (List.mem_filter.mpr ⟨ranking.mem_iff.mpr member, (unchanged e).symm.trans passes⟩)
      obtain ⟨above, below⟩ := ranked_around parts (ranking.sorted.sublist List.filter_sublist)
      obtain ⟨rest, inside, taken | ⟨skipped, exceeds⟩⟩ := @greedy_at _ SortedProposal.amount (totalBudget ctx) 0 before e after
      · rw [parts, taken] at outside
        exact absurd (List.mem_append_right _ List.mem_cons_self) outside
      · rw [parts, skipped]
        refine ⟨_, rest, rfl, fun a taken => above a ((greedy_sublist _ _ 0 _).subset taken), fun a taken => below a (inside.subset taken), ?_⟩
        rwa [Int.zero_add] at exceeds
    case allotted =>
      intro e inside
      have filtered := inside
      rw [returned] at filtered
      have filtered := List.mem_filter.mp ((greedy_sublist _ _ 0 _).subset filtered)
      rcases alloc e (ranking.mem_iff.mp filtered.1) filtered.2 with found | absent
      · exact found.2
      · exact absurd inside absent.1
    case nothing =>
      intro e member outside
      cases passes : passing e with
      | true =>
        rcases alloc e member passes with found | absent
        · exact absurd found.1 outside
        · exact absent.2
      | false =>
        show ((grabBudgets passing (totalBudget ctx) sorted 0 s.memory).2 e.hash).nAlloted = 0
        rw [(unpassing e member passes).2]
        exact zero e member ((passes_iff e).trans passes)

/-- `GetBudget` is the greedy allocation by votes exactly when no proposal that is not passing was allotted anything before: what
such a proposal has in memory is not written. -/
theorem getBudget_greedy_iff (sort : List SortedProposal → List SortedProposal) (sorts : SortsByVotes sort) (ctx : BudgetContext)
    (nAdjustedTime : Int) (s : BudgetState) (checked : AmountsChecked s.man) :
    GreedyByVotes ctx nAdjustedTime (s.getBudget sort ctx nAdjustedTime).1 (s.getBudget sort ctx nAdjustedTime).2 ↔
      ∀ e ∈ (s.refreshed ctx).pairs, (s.refreshed ctx).isPassing ctx nAdjustedTime e.hash e.proposal = false →
        (s.memory e.hash).nAlloted = 0 := by
  cases tip : ctx.tipHeight with
  | none =>
    have nonePasses : ∀ hash p, (s.refreshed ctx).isPassing ctx nAdjustedTime hash p = false := by
      intro hash p
      simp [isPassing, CBudgetProposal.isPassing, tip]
    have unfolded : s.getBudget sort ctx nAdjustedTime = ([], s.refreshed ctx) := by
      rw [getBudget, tip]
    rw [unfolded]
    constructor
    · intro allocation e member _
      exact allocation.nothing e member List.not_mem_nil
    · intro zero
      refine ⟨fun e impossible => absurd impossible List.not_mem_nil, List.nodup_nil, List.Pairwise.nil, ?_, fun e _ passes _ => ?_,
        fun e impossible => absurd impossible List.not_mem_nil, fun e member _ => zero e member (nonePasses _ _)⟩
      · exact (totalBudget_bounds ctx _).1
      · cases passes.symm.trans (nonePasses e.hash e.proposal)
  | some nHeight =>
    have total : totalBudget ctx = ctx.getTotalBudget (nextCycle ctx.network nHeight) := by
      rw [totalBudget, tip]
      rfl
    have unfolded : s.getBudget sort ctx nAdjustedTime =
        ((grabBudgets (fun e => (s.refreshed ctx).isPassing ctx nAdjustedTime e.hash e.proposal) (totalBudget ctx)
            (sort (s.refreshed ctx).pairs) 0 s.memory).1,
          { s.refreshed ctx with memory := (grabBudgets (fun e => (s.refreshed ctx).isPassing ctx nAdjustedTime e.hash e.proposal)
            (totalBudget ctx) (sort (s.refreshed ctx).pairs) 0 s.memory).2 }) := by
      rw [getBudget, tip, total]
      rfl
    rw [unfolded]
    exact grabbed_greedy_iff (sorts _) checked

end Allocation

def sortByVotes (l : List SortedProposal) : List SortedProposal := l.insertionSort fun e e' => e'.rank ≤ e.rank

theorem sortByVotes_sorts : SortsByVotes sortByVotes := IsRanking.insertionSort SortedProposal.rank

def votedProposal : CBudgetProposal :=
  { CBudgetManager.smallProposal with mapVotes := (∅ : StdMap uint256 CBudgetVote).insert 1 (CBudgetManager.yesOf 1) }

def votedState : BudgetState where
  man := { mapProposals := (∅ : StdMap uint256 CBudgetProposal).insert 7 votedProposal }
  memory _ := { nAlloted := 0 }

def lonelyContext : BudgetContext := { CBudgetManager.feeContext with find := fun _ => false }

theorem votedState_checked : AmountsChecked votedState.man := by
  intro hash p found
  obtain ⟨_, rfl⟩ : hash = 7 ∧ p = votedProposal := by
    simp only [votedState, StdMap.lookup_insert_ite] at found
    split at found
    · next same => exact ⟨same, (Option.some.inj found).symm⟩
    · cases found
  exact ⟨by decide, CBudgetManager.feeContext, 0, by decide⟩

theorem voted_proposal_allotted :
    GreedyByVotes CBudgetManager.feeContext 1000 (votedState.getBudget sortByVotes CBudgetManager.feeContext 1000).1
      (votedState.getBudget sortByVotes CBudgetManager.feeContext 1000).2 :=
  (getBudget_greedy_iff sortByVotes sortByVotes_sorts CBudgetManager.feeContext 1000 votedState votedState_checked).mpr fun _ _ _ => rfl

/-- The masternode goes away: the proposal is not returned and still has its ten coins. -/
theorem allotted_amount_left_behind :
    (votedState.getBudget sortByVotes CBudgetManager.feeContext 1000).1.map SortedProposal.hash = [7] ∧
      ((votedState.getBudget sortByVotes CBudgetManager.feeContext 1000).2.getBudget sortByVotes lonelyContext 1000).1.map
        SortedProposal.hash = [] ∧
      (((votedState.getBudget sortByVotes CBudgetManager.feeContext 1000).2.getBudget sortByVotes lonelyContext 1000).2.memory 7).nAlloted =
        10 * COIN ∧
      ¬GreedyByVotes lonelyContext 1000
        ((votedState.getBudget sortByVotes CBudgetManager.feeContext 1000).2.getBudget sortByVotes lonelyContext 1000).1
        ((votedState.getBudget sortByVotes CBudgetManager.feeContext 1000).2.getBudget sortByVotes lonelyContext 1000).2 := by
  refine ⟨by decide, by decide, by decide, fun allocation => ?_⟩
  have none_ : ((votedState.getBudget sortByVotes CBudgetManager.feeContext 1000).2.getBudget sortByVotes lonelyContext 1000).1 = [] := by
    rfl
  obtain ⟨e, member, hash⟩ : ∃ e ∈ ((votedState.getBudget sortByVotes CBudgetManager.feeContext 1000).2.getBudget sortByVotes lonelyContext
      1000).2.pairs, e.hash = 7 := ⟨_, List.mem_cons_self, rfl⟩
  have zero := allocation.nothing e member (by rw [none_]; exact List.not_mem_nil)
  rw [hash] at zero
  revert zero
  decide

end BudgetState

end SchillingCoin
