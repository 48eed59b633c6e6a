import DateScheduling.Proofs.Search.Stack
import DateScheduling.Proofs.Solver.Relations

/-!
# What the check of a model guards against

Pruning and search look up events by their numbers all the time: in the tables of
the network, in the store, and in the list of candidates.  A model is checked
once, before anything is looked up, and the check asks of its constraints only
that their largest events exist.  This is enough: no look-up ever misses.  And it
is needed: the network of any other model with a range in order cannot be built.

Main results:

- Theorem `Model.validate_eq_error_iff`: which error a model with a range in order
  gets.
- Theorems `ArcConsistency.inBounds_of_mem_trail` and
  `Search.inBounds_of_mem_trail`: the look-ups of both loops.
- Theorem `Solver.validation_guards`: the check decides whether a run can go wrong.
-/

namespace DateScheduling

/-! ## The error of a model -/

namespace Model

/-- The first constraint that is out of range is the one at the least position. -/
theorem firstOutOfRange?_eq_some_iff {n : Nat} {cs : List Constraint} {c : Constraint}
    {position : Nat} : firstOutOfRange? n cs = some (c, position) ↔
      cs[position]? = some c ∧ n ≤ c.maxIndex ∧
        ∀ j d, j < position → cs[j]? = some d → d.maxIndex < n := by
  unfold firstOutOfRange?
  rw [List.find?_eq_some_iff_getElem]
  simp only [List.length_zipIdx, List.getElem_zipIdx, Nat.zero_add, decide_eq_true_eq,
    Prod.mk.injEq, Bool.not_eq_true', decide_eq_false_iff_not, Nat.not_le]
  constructor
  · intro h
    rcases h with ⟨hmax, i, hi, ⟨rfl, rfl⟩, hbefore⟩
    refine ⟨List.getElem?_eq_getElem hi, hmax, ?_⟩
    intro j d hj hd
    rw [List.getElem?_eq_getElem (Nat.lt_trans hj hi), Option.some.injEq] at hd
    rw [← hd]
    exact hbefore j hj
  · intro h
    rcases h with ⟨hc, hmax, hbefore⟩
    rcases List.getElem?_eq_some_iff.1 hc with ⟨hlt, hget⟩
    refine ⟨hmax, position, hlt, ⟨hget, rfl⟩, ?_⟩
    intro j hj
    exact hbefore j _ hj (List.getElem?_eq_getElem (Nat.lt_trans hj hlt))

/-- A model with a range in order gets an error for its first constraint that
mentions an event it does not have. -/
theorem validate_eq_error_iff {m : Model} (hrange : m.range.first ≤ m.range.last)
    {e : ModelError} : m.validate = .error e ↔
      ∃ position c, (m.constraints[position]? = some c ∧ m.eventCount ≤ c.maxIndex ∧
        ∀ j d, j < position → m.constraints[j]? = some d → d.maxIndex < m.eventCount) ∧
        e = .eventOutOfRange position c.maxIndex m.eventCount := by
  have hnot : ¬ m.range.last < m.range.first := hrange
  unfold validate
  rw [if_neg hnot]
  simp only [← firstOutOfRange?_eq_some_iff]
  cases hfirst : firstOutOfRange? m.eventCount m.constraints with
  | none => simp
  | some found =>
      rcases found with ⟨c, position⟩
      simp only [Except.error.injEq, Option.some.injEq, Prod.mk.injEq]
      constructor
      · intro h
        exact ⟨position, c, ⟨rfl, rfl⟩, h.symm⟩
      · intro h
        rcases h with ⟨position', c', ⟨rfl, rfl⟩, rfl⟩
        rfl

/-- A model passes the check exactly when its range is in order and its network
can be built. -/
theorem validate_eq_ok_iff_isSome_build? {m : Model} : m.validate = .ok () ↔
    m.range.first ≤ m.range.last ∧
      (Network.build? m.eventCount m.constraints).isSome = true := by
  rw [validate_eq_ok_iff, Network.build?_isSome_iff]

end Model

/-! ## The look-ups of both loops -/

variable {cs : List Constraint} {net : Network} {n : Nat}

namespace ArcConsistency

/-- Whatever arc is taken next, the store has both its events and the network has
its head. -/
def State.InBounds (net : Network) (s : State) : Prop :=
  ∀ arc rest, s.agenda.pop? = some (arc, rest) →
    arc.head < s.store.size ∧ arc.tail < s.store.size ∧ arc.head < net.neighbors.size

/-- No look-up of an arc consistency pass misses. -/
theorem inBounds_of_mem_trail (hnet : net.Files n cs) (hcs : ∀ c ∈ cs, c.maxIndex < n)
    {store : Store} (hsize : n ≤ store.size) :
    ∀ t ∈ trail net (.start net store), t.InBounds net := by
  intro t ht arc rest hpop
  have hinv := invariant_of_mem_trail hnet hcs hsize (invariant_start hnet store) t ht
  have hlt := (hinv.joined_pop? hpop).lt hcs
  have hstore := hinv.size_eq
  have hneighbors := hnet.neighbors_size
  omega

end ArcConsistency

namespace Search

/-- Every event has a date, or the next event has candidates, of which those from
some position on are untried, and the network has it. -/
def State.InBounds (net : Network) (domains : Array (List Date)) (s : State) : Prop :=
  s.assignment.size = domains.size ∨
    s.assignment.size < net.completed.size ∧
      ∃ candidates tried, domains[s.assignment.size]? = some candidates ∧
        tried ≤ candidates.length ∧ s.current = candidates.drop tried

/-- No look-up of a search misses. -/
theorem inBounds_of_mem_trail (hnet : net.Files n cs) {domains : Array (List Date)}
    (hsize : domains.size ≤ n) (limits : Limits) :
    ∀ t ∈ trail net domains limits (.start domains), t.InBounds net domains := by
  intro t ht
  have hstacked := stacked_of_mem_trail t ht
  rcases Nat.eq_or_lt_of_le hstacked.size_le with heq | hlt
  · exact Or.inl heq
  · right
    rcases hstacked.exists_drop with ⟨tried, htried, hcurrent⟩
    have hcandidates : candidatesOf domains t.assignment.size = domains[t.assignment.size] := by
      simp [candidatesOf, hlt]
    rw [hcandidates] at htried hcurrent
    refine ⟨?_, domains[t.assignment.size], tried, Array.getElem?_eq_getElem hlt, htried, hcurrent⟩
    rw [hnet.completed_size]
    omega

end Search

/-! ## Whole runs -/

namespace Solver

/-- A model passes the check exactly when its range is in order and its network can
be built; if the range is in order and the model fails, the error names the first
constraint that is to blame.  On the network of a model that passes, neither pass
and no search misses a look-up, whatever the domains of its events and whatever
the limits are, so runs, pruning and solving end without a fault.  On a model that
fails, a run says so and nothing else. -/
theorem validation_guards :
    (∀ m : Model, m.validate = .ok () ↔ m.range.first ≤ m.range.last ∧
      (Network.build? m.eventCount m.constraints).isSome = true) ∧
    (∀ (m : Model) (e : ModelError), m.range.first ≤ m.range.last →
      (m.validate = .error e ↔ ∃ position c,
        (m.constraints[position]? = some c ∧ m.eventCount ≤ c.maxIndex ∧
          ∀ j d, j < position → m.constraints[j]? = some d → d.maxIndex < m.eventCount) ∧
        e = .eventOutOfRange position c.maxIndex m.eventCount)) ∧
    (∀ m : Model, m.validate = .ok () →
      ∃ net, Network.build? m.eventCount m.constraints = some net ∧
        (∀ s : Store, s.size = m.eventCount →
          (∀ var c, (var, c) ∈ net.unaryPlan → var < s.size) ∧
          (∃ removed, (nodeConsistency net s).result = .ok removed) ∧
          (nodeConsistency net s).store.size = m.eventCount ∧
          (∀ t ∈ ArcConsistency.trail net (.start net s), t.InBounds net) ∧
          (∃ counts, (arcConsistency net s).result = .ok counts) ∧
          (arcConsistency net s).store.size = m.eventCount) ∧
        (∀ (domains : Array (List Date)) (limits : Limits), domains.size = m.eventCount →
          (∀ t ∈ Search.trail net domains limits (.start domains), t.InBounds net domains) ∧
          ∃ report, (search net domains limits).result = .ok report) ∧
        ∀ (config : Config) (readings : Readings),
          (∃ r, (run m config readings).result = .ok r) ∧
          (∃ store, (propagate m config).result = .ok (.ok store) ∧
            store.size = m.eventCount ∧ store.candidates.size = m.eventCount) ∧
          ∃ assignment, (solve m).result = .ok (.ok assignment)) ∧
    ∀ (m : Model) (e : ModelError) (config : Config) (readings : Readings),
      m.validate = .error e →
        (run m config readings).result = .ok ⟨.modelInvalid, none, ⟨0, 0, 0, 0, 0, 0⟩⟩ ∧
        (propagate m config).result = .ok (.error e) ∧ (solve m).result = .ok (.error e) := by
  refine ⟨fun m => Model.validate_eq_ok_iff_isSome_build?,
    fun m e hrange => Model.validate_eq_error_iff hrange, ?_, ?_⟩
  · intro m hvalid
    have hcs := (Model.validate_eq_ok_iff.1 hvalid).2
    rcases Network.exists_build? hcs with ⟨net, hbuild, hnet⟩
    refine ⟨net, hbuild, ?_, ?_, ?_⟩
    · intro s hsize
      rcases exists_nodeConsistency hnet hcs hsize.ge with
          ⟨-, removed, rfl, hnode, hnodeSize, -⟩
      rcases exists_arcConsistency hnet hcs hsize.ge with ⟨-, counts, rfl, harc, hgreatest, -⟩
      refine ⟨?_, ⟨removed, hnode⟩, hnodeSize.trans hsize,
        ArcConsistency.inBounds_of_mem_trail hnet hcs hsize.ge, ⟨counts, harc⟩,
        hgreatest.size_eq.trans hsize⟩
      intro var c hplan
      rw [hsize]
      exact (hnet.mem_unaryPlan_iff.1 hplan).1
    · intro domains limits hsize
      exact ⟨Search.inBounds_of_mem_trail hnet hsize.le limits,
        Search.exists_report (Search.result_search hnet hsize.le) limits⟩
    · intro config readings
      rcases exists_course hvalid config with ⟨net', store, stats, hcourse⟩
      rcases hcourse.exists_run_stats readings with ⟨r, hrun, -⟩
      have hsize := hcourse.size_store
      refine ⟨⟨r, hrun⟩, ⟨store, hcourse.propagate_eq, hsize, ?_⟩, ?_⟩
      · rw [Store.size_candidates, hsize]
      · rcases solve_cases m with ⟨e, herror, -⟩ | ⟨-, r', -, hsolve⟩
        · rw [hvalid] at herror
          cases herror
        · exact ⟨r'.assignment, hsolve⟩
  · intro m e config readings hinvalid
    refine ⟨result_run_of_invalid hinvalid config readings, ?_, ?_⟩
    · unfold propagate
      rw [hinvalid]
      rfl
    · unfold solve
      rw [hinvalid]
      rfl

/-- Two events over three days; with a third constraint that mentions an event 7
the model fails. -/
theorem validation_guards_of_two :
    let first : Date := ⟨2024, 2, 28, by decide⟩
    let last : Date := ⟨2024, 3, 1, by decide⟩
    let m : Model := ⟨2, ⟨first, last⟩, [.binary 0 .before 1, .unary 1 .notEqual first]⟩
    let faulty : Model := m.addBinary 7 .equal 1
    m.validate = .ok () ∧ faulty.range.first ≤ faulty.range.last ∧
      faulty.validate = .error (.eventOutOfRange 2 7 2) ∧
      (Network.build? 2 faulty.constraints).isSome = false ∧
      (∃ net, Network.build? 2 m.constraints = some net ∧
        ∀ t ∈ Search.trail net #[[first], [first, last]] .none (.start #[[first], [first, last]]),
          t.InBounds net #[[first], [first, last]]) ∧
      (∃ r, (run m {} (.constant true false)).result = .ok r) ∧
      (run faulty {} (.constant true false)).result =
        .ok ⟨.modelInvalid, none, ⟨0, 0, 0, 0, 0, 0⟩⟩ := by
  intro first last m faulty
  have hvalid : m.validate = .ok () := by decide
  have hrange : faulty.range.first ≤ faulty.range.last := by decide
  rcases validation_guards with ⟨hok, herror, hgood, hbad⟩
  have hfaulty : faulty.validate = .error (.eventOutOfRange 2 7 2) := by
    rw [herror faulty _ hrange]
    refine ⟨2, .binary 7 .equal 1, ⟨rfl, by decide, ?_⟩, rfl⟩
    intro j d hj hd
    have hmem : d ∈ m.constraints := by
      rw [List.mem_iff_getElem?]
      refine ⟨j, ?_⟩
      rw [← hd]
      exact (List.getElem?_append_left hj).symm
    exact (Model.validate_eq_ok_iff.1 hvalid).2 d hmem
  have hbuild : (Network.build? 2 faulty.constraints).isSome = false := by
    rw [← Bool.not_eq_true]
    intro hsome
    have hpasses := (hok faulty).2 ⟨hrange, hsome⟩
    rw [hfaulty] at hpasses
    cases hpasses
  rcases hgood m hvalid with ⟨net, hnet, -, hsearch, hruns⟩
  exact ⟨hvalid, hrange, hfaulty, hbuild, ⟨net, hnet, (hsearch _ .none rfl).1⟩,
    (hruns {} (.constant true false)).1, (hbad faulty _ {} (.constant true false) hfaulty).1⟩

end Solver
end DateScheduling
