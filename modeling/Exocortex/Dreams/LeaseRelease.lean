import Exocortex.Dreams.CycleJournal
import Exocortex.Library.Scripts

/-!
# The lease of a Dreams cycle

`tryConsolidateInner` takes the lease of a region, asks whether the cycle was settled, recovers the
active journal, loads and validates the region, and then runs the consolidation, its end and the
discovery beside the task that renews the lease. It is a script: the storage may answer any call in
any way, and the renewal may end before any of them.

The scripts that load the region, consolidate it and look for discoveries make calls of their own
(`Work`), none of which is about the lease. What a consolidation that is given up leaves is the
journal, which the answers until then have made.

The lease is released on every path but one: when the first call under it fails, the function
returns at once (`lease_released_iff`).
-/

namespace Exocortex

open Library

/-- How the task that renews the lease ended. -/
inductive RenewalEnd where
  | failed (error : String)
  | stopped
  | joinFailed (error : String)
deriving DecidableEq

def renewalTaskError : RenewalEnd → String
  | .failed error => error
  | .stopped => "Dreams lease renewal stopped unexpectedly"
  | .joinFailed error => "Dreams lease renewal task failed: " ++ error

/-- A call of the engine on the storage, or a look at the renewal. -/
inductive CycleCall (Work : Type) where
  | acquireLease (key : LeaseKey) (ttl : ℕ)
  | cycleSucceededFenced (cycleId : String) (lease : OwnerLease)
  | getActiveCycleJournal (key : LeaseKey)
  | restoreFenced (restore : FencedRestore) (lease : OwnerLease)
  | completeCycleJournalFenced (cycleId : String) (lease : OwnerLease)
  | settleDreamsCycleFenced (cycleId : String) (records : List DiscoveryRecord)
      (lease : OwnerLease)
  | releaseLease (lease : OwnerLease)
  | renewal
  | work (call : Work)

/-- What a call may be answered. -/
def CycleCall.Answer {Work : Type} (WorkAnswer : Work → Type) : CycleCall Work → Type
  | .acquireLease _ _ => Except StorageError OwnerLease
  | .cycleSucceededFenced _ _ => Except StorageError Bool
  | .getActiveCycleJournal _ => Except StorageError (Option CycleJournalRecord)
  | .restoreFenced _ _ => Except StorageError (List CommitRecord)
  | .completeCycleJournalFenced _ _ => Except StorageError Unit
  | .settleDreamsCycleFenced _ _ _ => Except StorageError Unit
  | .releaseLease _ => Except StorageError Unit
  | .renewal => Option RenewalEnd
  | .work call => WorkAnswer call

section Engine

variable {Work : Type} {WorkAnswer : Work → Type} {WorkingSet Result : Type}

/-- A script of the engine. -/
abbrev CycleScript (WorkAnswer : Work → Type) (α : Type) : Type :=
  Script (CycleCall Work) (CycleCall.Answer WorkAnswer) α

namespace CycleScript

def acquireLease (key : LeaseKey) (ttl : ℕ) :
    CycleScript WorkAnswer (Except StorageError OwnerLease) :=
  .call (.acquireLease key ttl) .done

def cycleSucceededFenced (cycleId : String) (lease : OwnerLease) :
    CycleScript WorkAnswer (Except StorageError Bool) :=
  .call (.cycleSucceededFenced cycleId lease) .done

def getActiveCycleJournal (key : LeaseKey) :
    CycleScript WorkAnswer (Except StorageError (Option CycleJournalRecord)) :=
  .call (.getActiveCycleJournal key) .done

def restoreFenced (restore : FencedRestore) (lease : OwnerLease) :
    CycleScript WorkAnswer (Except StorageError (List CommitRecord)) :=
  .call (.restoreFenced restore lease) .done

def completeCycleJournalFenced (cycleId : String) (lease : OwnerLease) :
    CycleScript WorkAnswer (Except StorageError Unit) :=
  .call (.completeCycleJournalFenced cycleId lease) .done

def settleDreamsCycleFenced (cycleId : String) (records : List DiscoveryRecord)
    (lease : OwnerLease) : CycleScript WorkAnswer (Except StorageError Unit) :=
  .call (.settleDreamsCycleFenced cycleId records lease) .done

def releaseLease (lease : OwnerLease) : CycleScript WorkAnswer (Except StorageError Unit) :=
  .call (.releaseLease lease) .done

/-- The calls of a part that is not about the lease. -/
def working {α : Type} (script : Script Work WorkAnswer α) : CycleScript WorkAnswer α :=
  script.lift CycleCall.work fun _ answer => answer

/-- What a journal becomes by an answer to a call. -/
def tracked (journaled : CycleJournal → (call : Work) → WorkAnswer call → CycleJournal)
    (journal : CycleJournal) :
    (call : CycleCall Work) → CycleCall.Answer WorkAnswer call → CycleJournal
  | .work call, answer => journaled journal call answer
  | _, _ => journal

/-- The work beside the renewal, given up when that ends, with what was kept of the answers. -/
def besideRenewal {α σ : Type}
    (track : σ → (call : CycleCall Work) → CycleCall.Answer WorkAnswer call → σ) (kept : σ)
    (script : CycleScript WorkAnswer α) : CycleScript WorkAnswer (σ × (RenewalEnd ⊕ α)) :=
  script.interruptible .renewal id track kept

/-- The end of a cycle beside the renewal, and how that ended, if it did before. -/
def watchingRenewal {α : Type} (script : CycleScript WorkAnswer α) :
    CycleScript WorkAnswer (Option RenewalEnd × α) :=
  script.watched .renewal id

end CycleScript

open CycleScript

/-- The engine with what it does in a cycle, and how errors are displayed. -/
structure CycleEngine (WorkAnswer : Work → Type) (WorkingSet Result : Type) where
  leaderGate : Option Bool
  leaseTtl : ℕ
  display : StorageError → String
  loadRegionWorkingSet : RegionKey → Script Work WorkAnswer (Except String WorkingSet)
  validateLoadedRegion : RegionKey → WorkingSet → Except String Unit
  consolidateUnderTracked : OwnerLease → RegionKey → String → WorkingSet →
    Script Work WorkAnswer (Except String (Result × WorkingSet))
  journaled : CycleJournal → (call : Work) → WorkAnswer call → CycleJournal
  discoveries : RegionKey → String → Option WorkingSet →
    Script Work WorkAnswer (Except String (List DiscoveryRecord))

def dreamsLeaseKey (region : RegionKey) : LeaseKey :=
  .dreams region.org (region.project ++ ":" ++ toString region.memoryType)

namespace CycleEngine

variable (engine : CycleEngine WorkAnswer WorkingSet Result)

/-- The answer of a storage call, with its error under a heading. -/
def told {α : Type} (heading : String) (answer : Except StorageError α) : Except String α :=
  answer.mapError fun error => heading ++ engine.display error

def recoverActiveCycle (key : LeaseKey) (lease : OwnerLease) :
    CycleScript WorkAnswer (Except String Unit) := do
  match engine.told "load active Dreams journal: " (← getActiveCycleJournal key) with
  | .error error => return .error error
  | .ok none => return .ok ()
  | .ok (some active) =>
      match engine.told "recover active Dreams cycle: "
          (← restoreFenced active.restore lease) with
      | .error error => return .error error
      | .ok _ =>
          return engine.told "complete recovered Dreams journal: "
            (← completeCycleJournalFenced active.cycleId lease)

def rollback (journal : CycleJournal) (lease : OwnerLease) :
    CycleScript WorkAnswer (Except String Unit) := do
  return (engine.told "" (← restoreFenced journal.restore lease)).map fun _ => ()

def finishCycle (outcome : Except String Result) (journal : CycleJournal) (lease : OwnerLease) :
    CycleScript WorkAnswer (Except String Result) := do
  match outcome with
  | .ok result => return .ok result
  | .error error =>
      if journal.isEmpty then return .error error
      else
        match ← engine.rollback journal lease with
        | .error rollback =>
            return .error
              ("cycle failed (" ++ error ++ "); atomic restore failed (" ++ rollback ++ ")")
        | .ok _ =>
            match ← completeCycleJournalFenced journal.cycleId lease with
            | .error complete =>
                return .error ("cycle failed (" ++ error ++
                  "); rollback succeeded but journal completion failed (" ++
                  engine.display complete ++ ")")
            | .ok _ => return .error error

def runDiscoveryFenced (region : RegionKey) (lease : OwnerLease) (cycleId : String)
    (workingSet : Option WorkingSet) : CycleScript WorkAnswer (Except String Unit) := do
  match ← working (engine.discoveries region cycleId workingSet) with
  | .error error => return .error error
  | .ok records => return engine.told "" (← settleDreamsCycleFenced cycleId records lease)

/-- The end of the cycle after the consolidation: alone if the renewal has ended, and else beside
it. Says also whether the renewal has ended. -/
def finishing (renewalStopped : Bool) (outcome : Except String Result) (journal : CycleJournal)
    (lease : OwnerLease) : CycleScript WorkAnswer (Bool × Except String Result) := do
  if renewalStopped then
    return (true, ← engine.finishCycle outcome journal lease)
  else
    match ← watchingRenewal (engine.finishCycle outcome journal lease) with
    | (none, outcome) => return (false, outcome)
    | (some ended, .ok _) => return (true, .error (renewalTaskError ended))
    | (some ended, .error cycleError) =>
        return (true, .error ("cycle failed (" ++ cycleError ++
          "); lease renewal also failed (" ++ renewalTaskError ended ++ ")"))

/-- The discovery after a cycle that succeeded while the renewal went on. -/
def discovering (region : RegionKey) (lease : OwnerLease) (journal : CycleJournal)
    (workingSet : Option WorkingSet) (renewalStopped : Bool) (outcome : Except String Result) :
    CycleScript WorkAnswer (Except String Result) := do
  match outcome, renewalStopped with
  | .ok result, false =>
      match ← besideRenewal (fun _ _ _ => ()) ()
          (engine.runDiscoveryFenced region lease journal.cycleId workingSet) with
      | (_, .inl ended) => return .error (renewalTaskError ended)
      | (_, .inr outcome) => return outcome.map fun _ => result
  | other, _ => return other

/-- The last call gives the lease back, and its failure is reported too. -/
def releasing (lease : OwnerLease) (outcome : Except String Result) :
    CycleScript WorkAnswer (Except String (Option Result)) := do
  match outcome, ← releaseLease lease with
  | .ok result, .ok _ => return .ok (some result)
  | .error error, .ok _ => return .error error
  | .ok _, .error release => return .error ("release Dreams lease: " ++ engine.display release)
  | .error error, .error release =>
      return .error ("cycle failed (" ++ error ++ "); lease release also failed (" ++
        engine.display release ++ ")")

/-- The cycle on a region that was loaded. -/
def cycle (region : RegionKey) (cycleId : String) (lease : OwnerLease) (workingSet : WorkingSet) :
    CycleScript WorkAnswer (Except String (Option Result)) := do
  let (journal, selected) ← besideRenewal (tracked engine.journaled) (.new cycleId)
    (working (engine.consolidateUnderTracked lease region cycleId workingSet))
  let (stopped, outcome, cycledSet) : Bool × Except String Result × Option WorkingSet :=
    match selected with
    | .inl ended => (true, .error (renewalTaskError ended), none)
    | .inr (.ok (result, set)) => (false, .ok result, some set)
    | .inr (.error error) => (false, .error error, none)
  let (stopped, outcome) ← engine.finishing stopped outcome journal lease
  let outcome ← engine.discovering region lease journal cycledSet stopped outcome
  engine.releasing lease outcome

/-- The cycle under its lease, when it was not settled before. -/
def unsettled (region : RegionKey) (cycleId : String) (lease : OwnerLease) :
    CycleScript WorkAnswer (Except String (Option Result)) := do
  match ← engine.recoverActiveCycle (dreamsLeaseKey region) lease with
  | .error error =>
      let _ ← releaseLease lease
      return .error error
  | .ok _ =>
      match ← working (engine.loadRegionWorkingSet region) with
      | .error error =>
          let _ ← releaseLease lease
          return .error error
      | .ok workingSet =>
          match engine.validateLoadedRegion region workingSet with
          | .error error =>
              let _ ← releaseLease lease
              return .error error
          | .ok _ => engine.cycle region cycleId lease workingSet

def tryConsolidateInner (region : RegionKey) (stableCycleId : Option String) (fresh : String) :
    CycleScript WorkAnswer (Except String (Option Result)) := do
  if engine.leaderGate = some false then return .error "not the elected leader"
  else
    match engine.told "lease: " (← acquireLease (dreamsLeaseKey region) engine.leaseTtl) with
    | .error error => return .error error
    | .ok lease =>
        let cycleId := stableCycleId.getD ("dream:" ++ fresh)
        match engine.told "load Dreams cycle settlement: "
            (← cycleSucceededFenced cycleId lease) with
        | .error error => return .error error
        | .ok true =>
            return (engine.told "release settled Dreams lease: " (← releaseLease lease)).map
              fun _ => none
        | .ok false => engine.unsettled region cycleId lease

/-! ## Every path to the end -/

/-- A call that gives the lease back. -/
def Releases (lease : OwnerLease)
    (event : Script.Event (CycleCall Work) (CycleCall.Answer WorkAnswer)) : Prop :=
  event.1 = .releaseLease lease

theorem releaseLease_releases {α : Type} (lease : OwnerLease)
    (next : Except StorageError Unit → CycleScript WorkAnswer α) :
    Script.Surely (Releases lease) (releaseLease lease >>= next) :=
  .before (.here (fun _ => rfl) _) next

theorem releasing_releases (lease : OwnerLease) (outcome : Except String Result) :
    Script.Surely (Releases lease) (engine.releasing lease outcome) :=
  releaseLease_releases lease _

/-- However the consolidation, its end and the discovery go. -/
theorem cycle_releases (region : RegionKey) (cycleId : String) (lease : OwnerLease)
    (workingSet : WorkingSet) :
    Script.Surely (Releases lease) (engine.cycle region cycleId lease workingSet) := by
  refine .behind fun selected => ?_
  refine .behind fun finished => ?_
  refine .behind fun outcome => ?_
  exact engine.releasing_releases lease outcome

/-- However the recovery, the loading and the validation go. -/
theorem unsettled_releases (region : RegionKey) (cycleId : String) (lease : OwnerLease) :
    Script.Surely (Releases lease) (engine.unsettled region cycleId lease) := by
  refine .behind fun recovered => ?_
  cases recovered with
  | error error => exact releaseLease_releases lease _
  | ok _ =>
      refine .behind fun loaded => ?_
      cases loaded with
      | error error => exact releaseLease_releases lease _
      | ok workingSet =>
          dsimp only
          split
          · exact releaseLease_releases lease _
          · exact engine.cycle_releases region cycleId lease workingSet

/-- **The lease is given back exactly when the first call under it does not fail.** -/
theorem lease_released_iff {region : RegionKey} {stableCycleId : Option String} {fresh : String}
    {lease : OwnerLease}
    {events : List (Script.Event (CycleCall Work) (CycleCall.Answer WorkAnswer))}
    {result : Except String (Option Result)}
    (run : Script.Runs (engine.tryConsolidateInner region stableCycleId fresh)
      (⟨.acquireLease (dreamsLeaseKey region) engine.leaseTtl,
        (.ok lease : Except StorageError OwnerLease)⟩ :: events) result) :
    ∃ (settled : Except StorageError Bool) (rest : List _),
      events = ⟨.cycleSucceededFenced (stableCycleId.getD ("dream:" ++ fresh)) lease, settled⟩ ::
        rest ∧
      ((∃ event ∈ rest, Releases lease event) ↔ ∃ known, settled = .ok known) := by
  rw [tryConsolidateInner] at run
  split at run
  · cases run
  · obtain ⟨answer, others, same, held⟩ := Script.runs_call_iff.mp run
    cases same
    obtain ⟨settled, rest, rfl, asked⟩ := Script.runs_call_iff.mp held
    refine ⟨settled, rest, rfl, ?_⟩
    cases settled with
    | error error =>
        obtain ⟨rfl, -⟩ := Script.runs_done_iff.mp asked
        simp
    | ok known =>
        refine iff_of_true ?_ ⟨known, rfl⟩
        cases known with
        | true => exact releaseLease_releases lease _ rest result asked
        | false => exact engine.unsettled_releases region _ lease rest result asked

end CycleEngine

end Engine

/-! ## An engine without work of its own -/

/-- An engine that leads, and whose regions are loaded, consolidated and searched without a call. -/
def idleEngine : CycleEngine (fun _ : Empty => Unit) Unit Unit where
  leaderGate := some true
  leaseTtl := 60000
  display _ := "storage"
  loadRegionWorkingSet _ := .done (.ok ())
  validateLoadedRegion _ _ := .ok ()
  consolidateUnderTracked _ _ _ _ := .done (.ok ((), ()))
  journaled journal _ _ := journal
  discoveries _ _ _ := .done (.ok [])

def idleRegion : RegionKey := ⟨"acme", "notes", 0⟩

def idleLease : OwnerLease := ⟨dreamsLeaseKey idleRegion, "node", 1, 0, 60000, 0, "token"⟩

/-- The calls under a lease whose cycle was settled before. -/
def settledCalls (answer : Except StorageError Bool) :
    List (Script.Event (CycleCall Empty) (CycleCall.Answer fun _ => Unit)) :=
  [⟨.acquireLease (dreamsLeaseKey idleRegion) 60000,
      (.ok idleLease : Except StorageError OwnerLease)⟩,
    ⟨.cycleSucceededFenced "dream:1" idleLease, answer⟩]

/-- A cycle that was settled before gives its lease back. -/
theorem lease_released_settled :
    ∃ event ∈ [(⟨.releaseLease idleLease, (.ok () : Except StorageError Unit)⟩ :
        Script.Event (CycleCall Empty) (CycleCall.Answer fun _ => Unit))],
      CycleEngine.Releases idleLease event := by
  have run : Script.Runs (idleEngine.tryConsolidateInner idleRegion none "1")
      (settledCalls (.ok true) ++
        [⟨.releaseLease idleLease, (.ok () : Except StorageError Unit)⟩]) (.ok none) :=
    .call _ (.call _ (.call _ (.done _)))
  obtain ⟨settled, rest, same, exactly⟩ := idleEngine.lease_released_iff run
  cases same
  exact exactly.mpr ⟨true, rfl⟩

/-- When the storage cannot say whether the cycle was settled, the lease is kept. -/
theorem lease_kept : Script.Runs (idleEngine.tryConsolidateInner idleRegion none "1")
      (settledCalls (.error (.backend "unavailable")))
      (.error "load Dreams cycle settlement: storage") ∧
    ¬ ∃ event ∈ settledCalls (.error (.backend "unavailable")),
      CycleEngine.Releases idleLease event := by
  refine ⟨.call _ (.call _ (.done _)), ?_⟩
  simp [settledCalls, CycleEngine.Releases]

end Exocortex
