import DateScheduling.Proofs.Calendar.Shift
import DateScheduling.Proofs.Propagation.DayOrder
import DateScheduling.Proofs.Search.DayOrder
import DateScheduling.Proofs.Solver.Relations

/-!
# Runs see the order of days only

A model whose dates are replaced by dates in the same order is solved in the same
way: the passes take out the dates of the same pairs, the search takes the same
steps, and the same is reported and counted.  A solver knows nothing else about
calendars, so that moving all dates of a model by some number of days moves the
dates of the result, and changes nothing else.

Main results:

- Theorem `Traced.Paired.bind`: computations that are paired go on alike.
- Theorem `Model.Paired.run`: runs on paired models.
- Theorem `Solver.run_moved`: runs on models that were moved in time.
-/

namespace DateScheduling

variable {R : Date → Date → Prop}

/-! ## Computations in step -/

/-- The computations report the same, and either meet the same missing event or have
paired results. -/
inductive Traced.Paired {α β : Type} (S : α → β → Prop) : Traced α → Traced β → Prop where
  | ok (log : Array LogEntry) {a : α} {b : β} (h : S a b) : Paired S ⟨log, .ok a⟩ ⟨log, .ok b⟩
  | fail (log : Array LogEntry) (fault : Fault) :
      Paired S ⟨log, .error fault⟩ ⟨log, .error fault⟩

namespace Traced.Paired

variable {α β γ δ : Type} {S : α → β → Prop} {T : γ → δ → Prop} {x : Traced α} {y : Traced β}

/-- Paired computations that go on alike stay paired. -/
theorem bind (h : Traced.Paired S x y) {f : α → Traced γ} {g : β → Traced δ}
    (hfg : ∀ a b, S a b → Traced.Paired T (f a) (g b)) : Traced.Paired T (x >>= f) (y >>= g) := by
  cases h with
  | fail log fault => exact .fail log fault
  | @ok log a b hab =>
      have hrest := hfg a b hab
      change Traced.Paired T ⟨log ++ (f a).log, (f a).result⟩ ⟨log ++ (g b).log, (g b).result⟩
      generalize f a = u, g b = w at hrest
      cases hrest with
      | ok log' hcd => exact .ok (log ++ log') hcd
      | fail log' fault => exact .fail (log ++ log') fault

theorem log_eq (h : Traced.Paired S x y) : x.log = y.log := by
  cases h <;> rfl

/-- The partner of a computation that has a result has a paired result. -/
theorem exists_result (h : Traced.Paired S x y) {a : α} (hx : x.result = .ok a) :
    ∃ b, y.result = .ok b ∧ S a b := by
  cases h with
  | ok log hab =>
      cases hx
      exact ⟨_, rfl, hab⟩
  | fail log fault => cases hx

end Traced.Paired

/-- A pass as a computation. -/
theorem Pass.Paired.toTraced {α : Type} {pass pass' : Pass α} (h : pass.Paired R pass') :
    Traced.Paired (fun x x' => x.1.Paired R x'.1 ∧ x.2 = x'.2) pass.toTraced pass'.toTraced := by
  rcases pass with ⟨store, log, result⟩
  rcases pass' with ⟨store', log', result'⟩
  rcases h with ⟨hstore, ⟨⟩, ⟨⟩⟩
  cases result with
  | ok a => exact .ok log ⟨hstore, rfl⟩
  | error fault => exact .fail log fault

/-- The searches end in the same way and count alike. -/
structure Search.Report.Paired (R : Date → Date → Prop) (r r' : Report) : Prop where
  outcome : r.outcome.Paired R r'.outcome
  nodes_eq : r.nodes = r'.nodes
  backtracks_eq : r.backtracks = r'.backtracks

/-- Searches through paired candidates make paired reports. -/
theorem Network.Paired.search {net net' : Network} (hnet : net.Paired R net')
    (hR : Date.KeepsOrder R) {domains domains' : Array (List Date)}
    (hdomains : List.Forall₂ (List.Forall₂ R) domains.toList domains'.toList) (limits : Limits) :
    Traced.Paired (Search.Report.Paired R) (DateScheduling.search net domains limits)
      (DateScheduling.search net' domains' limits) := by
  rcases (Search.paired_start hdomains).run hR hnet hdomains limits with ⟨hfinal, hends⟩
  unfold DateScheduling.search Search.report
  rw [hfinal.log_eq]
  rcases hends with ⟨fault, hfault, hfault'⟩ | ⟨outcome, outcome', houtcome, houtcome', hpaired⟩
  · rw [hfault, hfault']
    exact .fail _ fault
  · rw [houtcome, houtcome']
    exact .ok _ ⟨hpaired, hfinal.nodes_eq, hfinal.backtracks_eq⟩

/-! ## Paired models -/

/-- The models have as many events, ranges with paired days and paired constraints. -/
structure Model.Paired (R : Date → Date → Prop) (m m' : Model) : Prop where
  eventCount_eq : m.eventCount = m'.eventCount
  first : R m.range.first m'.range.first
  last : R m.range.last m'.range.last
  days : List.Forall₂ R m.range.days m'.range.days
  constraints : List.Forall₂ (Constraint.Paired R) m.constraints m'.constraints

/-- The results agree in everything but their dates, which are paired. -/
structure Result.Paired (R : Date → Date → Prop) (r r' : Result) : Prop where
  status_eq : r.status = r'.status
  assignment : Option.Rel (fun a a' => List.Forall₂ R a.toList a'.toList) r.assignment
    r'.assignment
  stats_eq : r.stats = r'.stats

/-- What is known before the searches is paired. -/
inductive Solver.Prepared.Paired (R : Date → Date → Prop) : Prepared → Prepared → Prop where
  | decided {r r' : Result} (h : r.Paired R r') : Paired R (.decided r) (.decided r')
  | pending {net net' : Network} {domains domains' : Array (List Date)} (stats : Stats)
      (hnet : net.Paired R net')
      (hdomains : List.Forall₂ (List.Forall₂ R) domains.toList domains'.toList) :
      Paired R (.pending net domains stats) (.pending net' domains' stats)

namespace Model.Paired

variable {m m' : Model} (h : m.Paired R m') (hR : Date.KeepsOrder R)
include h hR

/-- Paired models pass the check together. -/
theorem validate_iff : m.validate = .ok () ↔ m'.validate = .ok () := by
  have hevents : (m.constraints.all fun c => c.maxIndex < m.eventCount) =
      m'.constraints.all fun c => c.maxIndex < m'.eventCount :=
    all_eq_of_forall₂ h.constraints fun c c' hc => by rw [hc.maxIndex_eq, h.eventCount_eq]
  rw [Bool.eq_iff_iff, List.all_eq_true, List.all_eq_true] at hevents
  simp only [decide_eq_true_eq] at hevents
  rw [validate_eq_ok_iff, validate_eq_ok_iff, hR.le_iff h.first h.last, hevents]

/-- Pruning paired models leaves paired stores and counts alike. -/
theorem prune {net net' : Network} (hnet : net.Paired R net') (config : Config) :
    Traced.Paired (fun x x' => x.1.Paired R x'.1 ∧ x.2 = x'.2) (Solver.prune m net config)
      (Solver.prune m' net' config) := by
  have hfull : (Store.full m.eventCount m.range).Paired R (.full m'.eventCount m'.range) := by
    rw [h.eventCount_eq]
    exact Store.paired_full _ h.days
  rw [Solver.prune_eq, Solver.prune_eq]
  refine Traced.Paired.bind (S := fun x x' => x.1.Paired R x'.1 ∧ x.2 = x'.2) ?_ ?_
  · cases config.nodeConsistency with
    | true => exact (hfull.nodeConsistency hR hnet).toTraced
    | false => exact .ok #[] ⟨hfull, rfl⟩
  · rintro ⟨store, nodePruned⟩ ⟨store', nodePruned'⟩ ⟨hstore, rfl⟩
    refine Traced.Paired.bind (S := fun x x' => x.1.Paired R x'.1 ∧ x.2 = x'.2) ?_ ?_
    · cases config.arcConsistency with
      | true => exact (hstore.arcConsistency hR hnet).toTraced
      | false => exact .ok #[] ⟨hstore, rfl⟩
    · rintro ⟨left, counts⟩ ⟨left', counts'⟩ ⟨hleft, rfl⟩
      exact .ok #[] ⟨hleft, rfl⟩

/-- Models that pass the check are prepared alike. -/
theorem prepare (hvalid : m.validate = .ok ()) (config : Config) :
    Traced.Paired (Solver.Prepared.Paired R) (Solver.prepare m config)
      (Solver.prepare m' config) := by
  have hvalid' := (h.validate_iff hR).1 hvalid
  rcases Network.exists_build? (validate_eq_ok_iff.1 hvalid).2 with ⟨net, hbuild, hfiles⟩
  rcases Network.exists_build? (validate_eq_ok_iff.1 hvalid').2 with ⟨net', hbuild', hfiles'⟩
  rw [h.eventCount_eq] at hfiles
  have hnet := hfiles.paired h.constraints hfiles'
  have hnetwork : Traced.Paired (Network.Paired R) (Solver.network m) (Solver.network m') := by
    unfold Solver.network
    rw [hbuild, hbuild']
    exact .ok #[] hnet
  unfold Solver.prepare
  rw [hvalid, hvalid']
  refine hnetwork.bind fun net net' hnet => (h.prune hR hnet config).bind ?_
  rintro ⟨store, stats⟩ ⟨store', stats'⟩ ⟨hstore, rfl⟩
  simp only [hstore.hasEmptyDomain_eq]
  split
  · exact .ok #[.emptied] (.decided ⟨rfl, .none, rfl⟩)
  · exact .ok #[] (.pending stats hnet hstore.candidates)

/-- Runs on models that pass the check report the same and have paired results. -/
theorem run (hvalid : m.validate = .ok ()) (config : Config) (readings : Readings) :
    Traced.Paired (Result.Paired R) (Solver.run m config readings)
      (Solver.run m' config readings) := by
  unfold Solver.run
  refine (h.prepare hR hvalid config).bind fun p p' hp => ?_
  cases hp with
  | decided hresult => exact .ok #[] hresult
  | pending stats hnet hdomains =>
      have hsearch := hnet.search hR hdomains (config.limits readings)
      refine hsearch.bind fun report report' hreport => ?_
      rcases report with ⟨outcome, nodes, backtracks⟩
      rcases report' with ⟨outcome', nodes', backtracks'⟩
      rcases hreport with ⟨houtcome, ⟨⟩, ⟨⟩⟩
      unfold Solver.conclude
      rw [h.eventCount_eq]
      cases houtcome with
      | found ha => exact .ok #[_] ⟨rfl, .some ha, rfl⟩
      | exhausted => exact .ok #[_] ⟨rfl, .none, rfl⟩
      | stopped stop => exact .ok #[_] ⟨rfl, .none, rfl⟩

end Model.Paired

/-! ## Models moved in time -/

/-- The dates a model mentions: the ends of its range and all fixed bounds. -/
def Model.dates (m : Model) : List Date :=
  m.range.first :: m.range.last :: m.constraints.filterMap Constraint.bound?

/-- The second model is the first one with all dates moved by `k` days. -/
structure Model.Moved (k : Int) (m m' : Model) : Prop where
  eventCount_eq : m.eventCount = m'.eventCount
  first : Date.Moved k m.range.first m'.range.first
  last : Date.Moved k m.range.last m'.range.last
  constraints : List.Forall₂ (Constraint.Paired (Date.Moved k)) m.constraints m'.constraints

theorem Date.keepsOrder_moved (k : Int) : KeepsOrder (Moved k) :=
  fun _ _ _ _ => Moved.lt_iff

/-- A moved model is paired with the original. -/
theorem Model.Moved.paired {k : Int} {m m' : Model} (h : m.Moved k m') :
    m.Paired (Date.Moved k) m' :=
  ⟨h.eventCount_eq, h.first, h.last, DateRange.moved_days h.first h.last, h.constraints⟩

/-- A model can be moved if all its dates can. -/
theorem Model.exists_moved {k : Int} {m : Model} (h : ∀ d ∈ m.dates, ∃ e, Date.Moved k d e) :
    ∃ m', m.Moved k m' := by
  unfold dates at h
  rw [List.forall_mem_cons, List.forall_mem_cons] at h
  rcases h with ⟨⟨first, hfirst⟩, ⟨last, hlast⟩, hbounds⟩
  have hconstraints : ∃ cs, List.Forall₂ (Constraint.Paired (Date.Moved k)) m.constraints cs := by
    generalize m.constraints = cs at hbounds
    induction cs with
    | nil => exact ⟨[], .nil⟩
    | cons c cs ih =>
        cases c with
        | unary var op bound =>
            simp only [List.filterMap_cons, Constraint.bound?, List.forall_mem_cons] at hbounds
            rcases hbounds with ⟨⟨moved, hmoved⟩, hrest⟩
            rcases ih hrest with ⟨cs', hcs'⟩
            exact ⟨_, .cons (.unary hmoved) hcs'⟩
        | binary left op right =>
            simp only [List.filterMap_cons, Constraint.bound?] at hbounds
            rcases ih hbounds with ⟨cs', hcs'⟩
            exact ⟨_, .cons .binary hcs'⟩
  rcases hconstraints with ⟨cs, hcs⟩
  exact ⟨⟨m.eventCount, ⟨first, last⟩, cs⟩, rfl, hfirst, hlast, hcs⟩

namespace Solver

/-- Moving all dates of a model by `k` days, where the calendar goes on that far,
moves the dates of the result by `k` days and leaves its status and all counters as
they are, whatever the configuration is and whatever the cancel signal and the
clock say at each count of nodes.  The runs report the same, unless the model
fails its check, which both models do together. -/
theorem run_moved (k : Int) (m : Model) (hdates : ∀ d ∈ m.dates, ∃ e, Date.Moved k d e) :
    (∃ m', m.Moved k m') ∧ ∀ m', m.Moved k m' →
      (m.validate = .ok () ↔ m'.validate = .ok ()) ∧
      ∀ (config : Config) (readings : Readings),
        (∃ r r', (run m config readings).result = .ok r ∧
          (run m' config readings).result = .ok r' ∧ r'.status = r.status ∧
          r'.stats = r.stats ∧
          Option.Rel (fun a a' => List.Forall₂ (Date.Moved k) a.toList a'.toList) r.assignment
            r'.assignment) ∧
        (m.validate = .ok () → (run m config readings).log = (run m' config readings).log) := by
  have hR := Date.keepsOrder_moved k
  refine ⟨Model.exists_moved hdates, ?_⟩
  intro m' hmoved
  have hvalidate := hmoved.paired.validate_iff hR
  refine ⟨hvalidate, ?_⟩
  intro config readings
  cases hvalid : m.validate with
  | ok =>
      have hrun := hmoved.paired.run hR hvalid config readings
      rcases exists_interrupted hvalid config readings with ⟨-, r, -, hr, -⟩
      rcases hrun.exists_result hr with ⟨r', hr', hresult⟩
      exact ⟨⟨r, r', hr, hr', hresult.status_eq.symm, hresult.stats_eq.symm, hresult.assignment⟩,
        fun _ => hrun.log_eq⟩
  | error e =>
      cases hvalid' : m'.validate with
      | ok =>
          rw [hvalidate.2 hvalid'] at hvalid
          cases hvalid
      | error e' =>
          refine ⟨⟨_, _, result_run_of_invalid hvalid config readings,
            result_run_of_invalid hvalid' config readings, rfl, rfl, .none⟩, ?_⟩
          intro hok
          cases hok

/-- Four days around the end of a year, moved to those around the leap day of the
year 0. -/
theorem run_moved_of_two :
    let first : Date := ⟨2023, 12, 30, by decide⟩
    let last : Date := ⟨2024, 1, 2, by decide⟩
    let first' : Date := ⟨0, 2, 28, by decide⟩
    let last' : Date := ⟨0, 3, 2, by decide⟩
    let m : Model := ⟨2, ⟨first, last⟩, [.binary 0 .before 1, .unary 1 .notEqual last]⟩
    let m' : Model := ⟨2, ⟨first', last'⟩, [.binary 0 .before 1, .unary 1 .notEqual last']⟩
    (∀ d ∈ m.dates, ∃ e, Date.Moved (-739191) d e) ∧ m.Moved (-739191) m' ∧
      m.validate = .ok () ∧ m'.validate = .ok () ∧
      ∃ r r', (run m { maxNodes := 3 } .quiet).result = .ok r ∧
        (run m' { maxNodes := 3 } .quiet).result = .ok r' ∧ r'.status = r.status ∧
        r'.stats = r.stats ∧
        Option.Rel (fun a a' => List.Forall₂ (Date.Moved (-739191)) a.toList a'.toList)
          r.assignment r'.assignment := by
  intro first last first' last' m m'
  have hfirst : Date.Moved (-739191) first first' := Date.moved_iff.2 (by decide)
  have hlast : Date.Moved (-739191) last last' := Date.moved_iff.2 (by decide)
  have hdates : ∀ d ∈ m.dates, ∃ e, Date.Moved (-739191) d e := by
    change ∀ d ∈ [first, last, last], ∃ e, Date.Moved (-739191) d e
    simp only [List.forall_mem_cons]
    exact ⟨⟨first', hfirst⟩, ⟨last', hlast⟩, ⟨last', hlast⟩, by simp⟩
  have hmoved : m.Moved (-739191) m' :=
    ⟨rfl, hfirst, hlast, .cons .binary (.cons (.unary hlast) .nil)⟩
  have hvalid : m.validate = .ok () := by decide
  rcases (run_moved (-739191) m hdates).2 m' hmoved with ⟨hvalidate, hruns⟩
  exact ⟨hdates, hmoved, hvalid, hvalidate.1 hvalid, (hruns { maxNodes := 3 } .quiet).1⟩

end Solver
end DateScheduling
