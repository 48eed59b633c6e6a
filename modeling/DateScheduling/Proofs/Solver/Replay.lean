import DateScheduling.Proofs.Log.Lines
import DateScheduling.Proofs.Propagation.NodePass
import DateScheduling.Proofs.Search.DeadEnds
import DateScheduling.Proofs.Solver.Conservation

/-!
# The log replays the run

The log of a run has a part for each phase: the summary of node consistency, the
revisions and the summary of arc consistency, and what the search reports.  The numbers in
it are those of the store at the time, and the counters in the result of the run agree with
them: every date taken out and every dead end is reported once, also when the search is cut
short.  What the log tells is read off its lines.

Main results:

- Theorem `Solver.exists_pruneLog`: what the two passes report.
- Theorem `Solver.Course.exists_lateLog`: what a run reports after pruning.
- Theorem `Solver.run_replayed`: the lines of a run against its result.
-/

namespace DateScheduling

namespace LogEntry

/-- A selection of phases keeps all entries of a phase or none. -/
theorem filter_phase {l : List LogEntry} {own : Phase} (h : ∀ e ∈ l, e.phase = own)
    (kept : Phase → Bool) :
    l.filter (fun e => kept e.phase) = if kept own = true then l else [] := by
  by_cases hown : kept own = true
  · rw [if_pos hown, List.filter_eq_self]
    intro e he
    rw [h e he, hown]
  · rw [if_neg hown, List.filter_eq_nil_iff]
    intro e he
    rw [h e he]
    exact hown

/-- What only revisions report is read off the revisions. -/
theorem filterMap_revision? (log : List LogEntry) :
    log.filterMap revision? = (log.filter (·.phase = .revision)).filterMap revision? := by
  rw [List.filterMap_filter]
  apply List.filterMap_congr
  intro e _
  cases e <;> rfl

end LogEntry

namespace Solver

variable {m : Model} {config : Config} {readings : Readings} {net : Network}
  {before store : Store} {stats : Stats}

/-! ## Pruning -/

/-- What the first pass reports, if it is made. -/
def nodeLog (made : Bool) (removed remaining : Nat) : List LogEntry :=
  if made then [.nodeConsistent removed remaining] else []

/-- What the second pass reports in the end, if it is made. -/
def arcLog (made : Bool) (removed revisions remaining : Nat) : List LogEntry :=
  if made then [.arcConsistent removed revisions remaining] else []

theorem map_line_nodeLog (made : Bool) (removed remaining : Nat) :
    (nodeLog made removed remaining).map LogEntry.line =
      if made then ["DEBUG node consistency removed " ++ removed.repr ++ " values, " ++
        remaining.repr ++ " remain"]
      else [] := by
  cases made with
  | false => rfl
  | true => exact congrArg (fun line => [line]) (LogEntry.line_nodeConsistent removed remaining)

theorem map_line_arcLog (made : Bool) (removed revisions remaining : Nat) :
    (arcLog made removed revisions remaining).map LogEntry.line =
      if made then ["DEBUG ac3 removed " ++ removed.repr ++ " values in " ++ revisions.repr ++
        " revisions, " ++ remaining.repr ++ " remain"]
      else [] := by
  cases made with
  | false => rfl
  | true =>
      exact congrArg (fun line => [line]) (LogEntry.line_arcConsistent removed revisions remaining)

/-- What the first pass reports is its summary. -/
theorem log_firstPass {full : Store} {removed : Nat} {made : Bool}
    (h : (if made then (nodeConsistency net full).toTraced else pure (full, 0)).result =
      .ok (before, removed)) :
    (if made then (nodeConsistency net full).toTraced else pure (full, 0)).log.toList =
        nodeLog made removed before.totalSize ∧
      (made = false → removed = 0) := by
  cases made with
  | false =>
      cases h
      exact ⟨rfl, fun _ => rfl⟩
  | true =>
      rcases Pass.result_toTraced_iff.1 h with ⟨rfl, hresult⟩
      refine ⟨?_, nofun⟩
      have hpass := nodeConsistency_eq hresult
      exact congrArg (fun pass => pass.log.toList) hpass

/-- What the second pass reports are its reductions and then its summary. -/
theorem exists_log_secondPass {n : Nat} {cs : List Constraint} (hnet : net.Files n cs)
    (hcs : ∀ c ∈ cs, c.maxIndex < n) (hsize : n ≤ before.size)
    {counts : ArcCounts} {made : Bool}
    (h : (if made then (arcConsistency net before).toTraced else pure (before, ⟨0, 0⟩)).result =
      .ok (store, counts)) :
    ∃ entries, (if made then (arcConsistency net before).toTraced
        else pure (before, ⟨0, 0⟩)).log.toList =
          entries ++ arcLog made counts.removed counts.revisions store.totalSize ∧
      Narrates before entries store counts.removed := by
  cases made with
  | false =>
      cases h
      exact ⟨[], rfl, .refl before⟩
  | true =>
      rcases Pass.result_toTraced_iff.1 h with ⟨rfl, hresult⟩
      rcases exists_arcLog hnet hcs hsize with ⟨entries, counts', hresult', hlog, hnarrates⟩
      rw [hresult', Except.ok.injEq] at hresult
      subst hresult
      exact ⟨entries, hlog, hnarrates⟩

/-- The log of pruning: the summary of the first pass, the revisions that took dates out,
and the summary of the second pass.  The store between the passes is what pruning without
arc consistency leaves. -/
theorem exists_pruneLog (hnet : net.Files m.eventCount m.constraints)
    (hcs : ∀ c ∈ m.constraints, c.maxIndex < m.eventCount)
    (hprune : (prune m net config).result = .ok (store, stats)) :
    ∃ before entries stats', (prune m net (config.withArcConsistency false)).result =
        .ok (before, stats') ∧
      (config.nodeConsistency = false → stats.nodePruned = 0) ∧
      before.totalSize + stats.nodePruned = (Store.full m.eventCount m.range).totalSize ∧
      (prune m net config).log.toList =
        nodeLog config.nodeConsistency stats.nodePruned before.totalSize ++ (entries ++
          arcLog config.arcConsistency stats.arcPruned stats.arcRevisions store.totalSize) ∧
      Narrates before entries store stats.arcPruned := by
  rcases exists_bounded hnet hcs config.nodeConsistency with
      ⟨before, removed, hfirst, hsize, -, htotal⟩
  rcases exists_arcPruned hnet hcs hsize.ge config.arcConsistency with
      ⟨store', counts, hsecond, -⟩
  rcases log_firstPass hfirst with ⟨hnode, hoff⟩
  rcases exists_log_secondPass hnet hcs hsize.ge hsecond with ⟨entries, harc, hnarrates⟩
  rw [prune_eq, Traced.result_bind_ok hfirst, Traced.result_bind_ok hsecond] at hprune
  simp only [Traced.pure_eq, Except.ok.injEq, Prod.mk.injEq] at hprune
  rcases hprune with ⟨rfl, rfl⟩
  refine ⟨before, entries, { nodePruned := removed }, ?_, hoff, htotal, ?_, hnarrates⟩
  · rw [prune_eq]
    exact Traced.result_bind_ok hfirst _
  · rw [prune_eq, Traced.log_bind_ok hfirst, Traced.log_bind_ok hsecond, Array.toList_append,
      Array.toList_append, hnode, harc]
    simp

/-! ## What follows pruning -/

/-- How the search of a pruned store ends.  No search is made when some event has no date
left. -/
def ending? (net : Network) (store : Store) (limits : Limits) : Option Search.Outcome :=
  if store.hasEmptyDomain then none
  else (search net store.candidates limits).result.toOption.map (·.outcome)

/-- What a run reports in the end: that there was nothing to search, or how the search and
the run have ended. -/
def closingLog (m : Model) (r : Result) : Option Search.Outcome → List LogEntry
  | none => [.emptied]
  | some outcome => [Search.closing outcome r.stats.nodes r.stats.backtracks,
      .solved m.eventCount (status outcome)]

theorem phase_of_mem_closingLog {m : Model} {r : Result} {ending : Option Search.Outcome} :
    ∀ e ∈ closingLog m r ending, e.phase = .ending := by
  rcases ending with _ | outcome
  · simp [closingLog, LogEntry.phase]
  · cases outcome <;> simp [closingLog, Search.closing, LogEntry.phase]

/-- A run that follows pruning has the counters of pruning, the status that its search
stands for, and one dead end for every event in a list: those from which the search has
returned, and the one at which it has given up. -/
structure Follows (stats : Stats) (ending : Option Search.Outcome) (deadEnds : List Nat)
    (r : Result) : Prop where
  nodePruned_eq : r.stats.nodePruned = stats.nodePruned
  arcPruned_eq : r.stats.arcPruned = stats.arcPruned
  arcRevisions_eq : r.stats.arcRevisions = stats.arcRevisions
  status_eq : r.status = ending.elim .infeasible status
  backtracks_eq : r.stats.backtracks = deadEnds.length
  deadEnds_eq : ∃ returned : List Nat, (∀ var ∈ returned, 0 < var) ∧
    deadEnds = returned ++ ending.elim [] Search.givenUp

namespace Course

/-- The store and the counters on the way of a model are those of pruning. -/
theorem result_prune (h : Course m config net store stats) (hvalid : m.validate = .ok ()) :
    (prune m net config).result = .ok (store, stats) := by
  rcases exists_prune h.files h.maxIndex_lt config with ⟨-, store', stats', hprune, -⟩
  have hstore := h.propagate_eq
  rw [result_propagate hvalid h.build?_eq hprune] at hstore
  simp only [Except.ok.injEq] at hstore
  have hprepare := h.prepare_eq
  rw [result_prepare hvalid h.build?_eq hprune, hstore] at hprepare
  have hstats : stats' = stats := by
    cases hempty : store.hasEmptyDomain <;>
      · rw [hempty] at hprepare
        cases hprepare
        rfl
  rw [hprune, hstore, hstats]

/-- Up to the search a run reports what pruning reports, and that it has emptied some
domain if it has. -/
theorem log_prepare (h : Course m config net store stats) (hvalid : m.validate = .ok ()) :
    (prepare m config).log =
      (prune m net config).log ++ (if store.hasEmptyDomain then #[.emptied] else #[]) := by
  unfold prepare
  simp only [hvalid, network_of_build? h.build?_eq]
  rw [Traced.log_bind_ok rfl, Traced.log_bind_ok (h.result_prune hvalid)]
  cases hempty : store.hasEmptyDomain with
  | false => simp [Traced.ok]
  | true => simp [Traced.ok, Traced.report, Traced.bind_eq, Traced.andThen]

/-- A search is made unless pruning has left some event without dates, and it ends. -/
theorem ending?_eq_none_iff (h : Course m config net store stats) (readings : Readings) :
    ending? net store (config.limits readings) = none ↔ store.hasEmptyDomain = true := by
  rcases Search.exists_report h.result_search (config.limits readings) with ⟨report, hreport⟩
  unfold ending?
  rw [hreport]
  simp [Except.toOption]

/-- The log of a run goes on from the log of pruning with the dead ends of the search and
with how it and the run have ended. -/
theorem exists_lateLog (h : Course m config net store stats) (hvalid : m.validate = .ok ())
    (readings : Readings) :
    ∃ r deadEnds, (run m config readings).result = .ok r ∧
      Follows stats (ending? net store (config.limits readings)) deadEnds r ∧
      (run m config readings).log.toList = (prune m net config).log.toList ++
        (deadEnds.map .exhausted ++
          closingLog m r (ending? net store (config.limits readings))) := by
  have hprepare := h.prepare_eq
  have hlog := h.log_prepare hvalid
  cases hempty : store.hasEmptyDomain with
  | true =>
      have hending : ending? net store (config.limits readings) = none := if_pos hempty
      refine ⟨_, [], h.result_run_of_emptied hempty readings, ?_, ?_⟩
      · rw [hending]
        exact ⟨rfl, rfl, rfl, rfl, h.backtracks_eq, [], nofun, rfl⟩
      · rw [hempty] at hprepare hlog
        unfold run
        rw [Traced.log_bind_ok hprepare, hlog, hending]
        simp [closingLog]
  | false =>
      rcases Search.exists_report h.result_search (config.limits readings) with ⟨report, hreport⟩
      rcases Search.exists_searchLog hreport with ⟨returned, hpos, hsearchLog, hbacktracks⟩
      have hending : ending? net store (config.limits readings) = some report.outcome := by
        unfold ending?
        rw [hempty, hreport]
        rfl
      refine ⟨_, returned ++ Search.givenUp report.outcome,
        h.result_run_of_search readings hempty hreport, ?_, ?_⟩
      · rw [hending]
        exact ⟨rfl, rfl, rfl, rfl, hbacktracks, returned, hpos, rfl⟩
      · rw [hempty] at hprepare hlog
        unfold run
        rw [Traced.log_bind_ok hprepare, hlog, hending]
        simp only [Bool.false_eq_true, if_false]
        rw [Traced.log_bind_ok hreport]
        simp [hsearchLog, closingLog, conclude, Traced.report, Traced.bind_eq, Traced.andThen]

end Course

/-! ## The whole log -/

/-- A log consists of what its phases have reported, one after the other. -/
structure Phased (log : List LogEntry) (part : Phase → List LogEntry) : Prop where
  log_eq : log = part .nodeSummary ++ (part .revision ++ part .arcSummary) ++
    (part .deadEnd ++ part .ending)
  phase_eq : ∀ phase, ∀ e ∈ part phase, e.phase = phase

namespace Phased

variable {log : List LogEntry} {part : Phase → List LogEntry}

/-- A selection of phases keeps or leaves out whole parts of a log. -/
theorem filter_eq (h : Phased log part) (kept : Phase → Bool) :
    log.filter (fun e => kept e.phase) =
      (if kept .nodeSummary = true then part .nodeSummary else []) ++
        ((if kept .revision = true then part .revision else []) ++
          if kept .arcSummary = true then part .arcSummary else []) ++
        ((if kept .deadEnd = true then part .deadEnd else []) ++
          if kept .ending = true then part .ending else []) := by
  rw [h.log_eq]
  simp only [List.filter_append, LogEntry.filter_phase (h.phase_eq _)]

/-- The entries of a phase are its part of the log. -/
theorem filter_phase (h : Phased log part) (phase : Phase) :
    log.filter (·.phase = phase) = part phase := by
  rw [h.filter_eq (· = phase)]
  cases phase <;> simp

/-- The details of a log are its revisions and then its dead ends. -/
theorem filter_trace (h : Phased log part) :
    log.filter (·.level = .trace) = part .revision ++ part .deadEnd := by
  simp only [LogEntry.level_eq_trace_iff]
  simpa using h.filter_eq fun phase => phase = .revision ∨ phase = .deadEnd

end Phased

/-- What each phase of a run reports: the passes that are made what they have taken out and
left, and the search the events without candidates. -/
def logPart (config : Config) (stats : Stats) (before after : Store)
    (revisions : List LogEntry) (deadEnds : List Nat) (closing : List LogEntry) :
    Phase → List LogEntry
  | .nodeSummary => nodeLog config.nodeConsistency stats.nodePruned before.totalSize
  | .revision => revisions
  | .arcSummary =>
      arcLog config.arcConsistency stats.arcPruned stats.arcRevisions after.totalSize
  | .deadEnd => deadEnds.map .exhausted
  | .ending => closing

/-- Each phase only makes its own reports. -/
theorem phase_of_mem_logPart {before after : Store} {revisions closing : List LogEntry}
    {deadEnds : List Nat}
    (hrevisions : ∀ e ∈ revisions, ∃ arc removed left, e = .revised arc removed left)
    (hclosing : ∀ e ∈ closing, e.phase = .ending) (phase : Phase) :
    ∀ e ∈ logPart config stats before after revisions deadEnds closing phase,
      e.phase = phase := by
  cases phase with
  | nodeSummary =>
      cases hnode : config.nodeConsistency <;> simp [logPart, nodeLog, hnode, LogEntry.phase]
  | revision =>
      intro e he
      rcases hrevisions e he with ⟨arc, removed, left, rfl⟩
      rfl
  | arcSummary =>
      cases harc : config.arcConsistency <;> simp [logPart, arcLog, harc, LogEntry.phase]
  | deadEnd => simp [logPart, LogEntry.phase]
  | ending => exact hclosing

/-- What the lines of a run tell about it, when the store `before` was left before the arc
consistency pass, the store `after` was left to the search, and the search ended as
given. -/
structure Replays (m : Model) (config : Config) (before after : Store)
    (ending : Option Search.Outcome) (lines : List String) (r : Result) : Prop where
  /-- Only an empty domain prevents the search. -/
  ending_eq_none_iff : ending = none ↔ after.hasEmptyDomain = true
  status_eq : r.status = ending.elim .infeasible status
  /-- The counters of pruning do not exceed the dates there were at first. -/
  pruned_le : r.stats.nodePruned + r.stats.arcPruned ≤ m.eventCount * m.rangeLength
  nodePruned_off : config.nodeConsistency = false → r.stats.nodePruned = 0
  /-- The first pass is summed up in one line if it is made. -/
  node_summary : lines.filter Phase.nodeSummary.opens =
    if config.nodeConsistency then
      ["DEBUG node consistency removed " ++ r.stats.nodePruned.repr ++ " values, " ++
        (m.eventCount * m.rangeLength - r.stats.nodePruned).repr ++ " remain"]
    else []
  /-- The second pass is summed up in one line if it is made. -/
  arc_summary : lines.filter Phase.arcSummary.opens =
    if config.arcConsistency then
      ["DEBUG ac3 removed " ++ r.stats.arcPruned.repr ++ " values in " ++
        r.stats.arcRevisions.repr ++ " revisions, " ++
        (m.eventCount * m.rangeLength - r.stats.nodePruned - r.stats.arcPruned).repr ++ " remain"]
    else []
  /-- Each line about a revision says what it has taken out and left. -/
  revision_text : ∀ line ∈ lines, Phase.revision.opens line = true →
    ∃ head tail removed left : Nat, line = "TRACE revise " ++ head.repr ++ "->" ++ tail.repr ++
      ": removed " ++ removed.repr ++ ", " ++ left.repr ++ " left"
  /-- The reductions shown for each event count down from the dates it had before the second
  pass. -/
  countdown : ∀ var, Countdown (before.sizeAt var)
    (reductionsOf var (lines.filterMap revisionShown?)) (after.sizeAt var)
  /-- All reductions shown add up to the counter of the second pass. -/
  arcPruned_eq : ((lines.filterMap revisionShown?).map (·.2.removed)).sum = r.stats.arcPruned
  /-- Each line about a dead end names the event twice. -/
  deadEnd_text : ∀ line ∈ lines, Phase.deadEnd.opens line = true →
    ∃ var : Nat, line = "TRACE x" ++ var.repr ++ " exhausted at depth " ++ var.repr ++
      ", backtracking"
  /-- Every dead end is shown by one line. -/
  backtracks_eq : lines.countP Phase.deadEnd.opens = r.stats.backtracks
  /-- The event 0 is a dead end exactly if the search was in vain, and only once. -/
  exhausted_count : lines.count "TRACE x0 exhausted at depth 0, backtracking" =
    if ending = some .exhausted then 1 else 0
  /-- The dead end at the event 0 is the last detail that is shown. -/
  exhausted_last : ending = some .exhausted →
    (lines.filter (·.startsWith "TRACE ")).getLast? =
      some "TRACE x0 exhausted at depth 0, backtracking"

theorem line_exhausted_zero :
    (LogEntry.exhausted 0).line = "TRACE x0 exhausted at depth 0, backtracking" := by
  decide

/-- A search gives up at the event 0 once, in vain. -/
theorem count_givenUp (ending : Option Search.Outcome) :
    (ending.elim [] Search.givenUp).count 0 = if ending = some .exhausted then 1 else 0 := by
  rcases ending with _ | outcome
  · rfl
  · cases outcome <;> simp [Search.givenUp]

/-- A log in phases tells what the phases did. -/
theorem Phased.replays {before after : Store} {ending : Option Search.Outcome}
    {log revisions closing : List LogEntry} {deadEnds : List Nat} {r : Result}
    (h : Phased log (logPart config stats before after revisions deadEnds closing))
    (hnarrates : Narrates before revisions after stats.arcPruned)
    (hfollows : Follows stats ending deadEnds r)
    (hending : ending = none ↔ after.hasEmptyDomain = true)
    (hoff : config.nodeConsistency = false → stats.nodePruned = 0)
    (hnode : before.totalSize + stats.nodePruned = m.eventCount * m.rangeLength)
    (htotal : stats.nodePruned + stats.arcPruned + after.totalSize =
      m.eventCount * m.rangeLength) :
    Replays m config before after ending (log.map LogEntry.line) r := by
  rcases hfollows.deadEnds_eq with ⟨returned, hpos, hdeadEnds⟩
  have hshown : (log.map LogEntry.line).filterMap revisionShown? =
      revisions.filterMap LogEntry.revision? := by
    rw [LogEntry.filterMap_revisionShown?, LogEntry.filterMap_revision?, h.filter_phase]
    rfl
  constructor
  case ending_eq_none_iff => exact hending
  case status_eq => exact hfollows.status_eq
  case pruned_le =>
    rw [hfollows.nodePruned_eq, hfollows.arcPruned_eq]
    omega
  case nodePruned_off =>
    rw [hfollows.nodePruned_eq]
    exact hoff
  case node_summary =>
    have hleft : before.totalSize = m.eventCount * m.rangeLength - stats.nodePruned := by omega
    rw [LogEntry.filter_opens, h.filter_phase, logPart, hfollows.nodePruned_eq, hleft]
    exact map_line_nodeLog _ _ _
  case arc_summary =>
    have hleft : after.totalSize =
        m.eventCount * m.rangeLength - stats.nodePruned - stats.arcPruned := by
      omega
    rw [LogEntry.filter_opens, h.filter_phase, logPart, hfollows.nodePruned_eq,
      hfollows.arcPruned_eq, hfollows.arcRevisions_eq, hleft]
    exact map_line_arcLog _ _ _ _
  case revision_text =>
    intro line hline hopens
    rcases LogEntry.exists_of_opens hline hopens with ⟨e, he, rfl, hphase⟩
    cases e with
    | revised arc removed left => exact ⟨_, _, _, _, LogEntry.line_revised arc removed left⟩
    | _ => cases hphase
  case countdown =>
    intro var
    rw [hshown]
    exact hnarrates.countdown var
  case arcPruned_eq =>
    rw [hshown, hfollows.arcPruned_eq]
    exact hnarrates.removed_eq
  case deadEnd_text =>
    intro line hline hopens
    rcases LogEntry.exists_of_opens hline hopens with ⟨e, he, rfl, hphase⟩
    cases e with
    | exhausted var => exact ⟨_, LogEntry.line_exhausted var⟩
    | _ => cases hphase
  case backtracks_eq =>
    rw [List.countP_eq_length_filter, LogEntry.filter_opens, h.filter_phase, logPart,
      List.length_map, List.length_map, hfollows.backtracks_eq]
  case exhausted_count =>
    have hinjective : Function.Injective LogEntry.exhausted := fun _ _ => LogEntry.exhausted.inj
    have hreturned : returned.count 0 = 0 := by
      rw [List.count_eq_zero]
      exact fun hmem => absurd (hpos 0 hmem) (Nat.lt_irrefl 0)
    rw [← line_exhausted_zero, LogEntry.count_line_exhausted,
      ← List.count_filter (p := (·.phase = .deadEnd)) rfl, h.filter_phase, logPart,
      List.count_map_of_injective _ _ hinjective, hdeadEnds, List.count_append, hreturned,
      count_givenUp, Nat.zero_add]
  case exhausted_last =>
    intro hvain
    rw [LogEntry.filter_startsWith_trace, h.filter_trace, hdeadEnds, hvain]
    simp [logPart, Search.givenUp, ← line_exhausted_zero]

/-- The lines that a run on a checked model logs, whatever passes are made and however the
search ends, replay the run: each pass is summed up with what it has taken out and what it has
left, the reductions of each event count its dates down from those it had before arc
consistency, all reductions add up to the counter of the pass, the dead ends are as many as
the counter says, and the one at the event 0 is the last detail of a search in vain. -/
theorem run_replayed (m : Model) (hvalid : m.validate = .ok ()) (config : Config)
    (readings : Readings) :
    ∃ r net before after, (run m config readings).result = .ok r ∧
      Network.build? m.eventCount m.constraints = some net ∧
      (propagate m (config.withArcConsistency false)).result = .ok (.ok before) ∧
      (propagate m config).result = .ok (.ok after) ∧
      Replays m config before after (ending? net after (config.limits readings))
        (run m config readings).lines r := by
  rcases exists_course hvalid config with ⟨net, after, stats, hcourse⟩
  rcases exists_pruneLog hcourse.files hcourse.maxIndex_lt (hcourse.result_prune hvalid) with
      ⟨before, revisions, stats', hbefore, hoff, hnodeTotal, hpruneLog, hnarrates⟩
  rcases hcourse.exists_lateLog hvalid readings with ⟨r, deadEnds, hrun, hfollows, hlog⟩
  have hphased : Phased (run m config readings).log.toList
      (logPart config stats before after revisions deadEnds
        (closingLog m r (ending? net after (config.limits readings)))) :=
    ⟨by rw [hlog, hpruneLog]; rfl,
      phase_of_mem_logPart hnarrates.revised phase_of_mem_closingLog⟩
  have htotal := hcourse.total_eq
  have hfull := Store.totalSize_full m.eventCount m.range
  rw [DateRange.length_days] at hfull
  exact ⟨r, net, before, after, hrun, hcourse.build?_eq,
    result_propagate hvalid hcourse.build?_eq hbefore, hcourse.propagate_eq,
    hphased.replays hnarrates hfollows (hcourse.ending?_eq_none_iff readings) hoff
      (hnodeTotal.trans hfull) htotal⟩

/-- Three events over three days, of which the first is not to be on the last day and has
to be before the second, in a search that nothing stops: both passes are summed up, and of
the 9 dates there were at first those remain that no pass has counted. -/
theorem run_replayed_of_three :
    let first : Date := ⟨2024, 2, 28, by decide⟩
    let last : Date := ⟨2024, 3, 1, by decide⟩
    let m : Model := ⟨3, ⟨first, last⟩,
      [.unary 0 .notEqual last, .binary 0 .before 1, .binary 1 .notEqual 2]⟩
    let lines := (run m {} .quiet).lines
    m.validate = .ok () ∧
      ∃ r before after, (run m {} .quiet).result = .ok r ∧
        (propagate m (Config.withArcConsistency {} false)).result = .ok (.ok before) ∧
        (propagate m {}).result = .ok (.ok after) ∧
        lines.filter Phase.nodeSummary.opens = ["DEBUG node consistency removed " ++
          r.stats.nodePruned.repr ++ " values, " ++ (9 - r.stats.nodePruned).repr ++ " remain"] ∧
        lines.filter Phase.arcSummary.opens = ["DEBUG ac3 removed " ++ r.stats.arcPruned.repr ++
          " values in " ++ r.stats.arcRevisions.repr ++ " revisions, " ++
          (9 - r.stats.nodePruned - r.stats.arcPruned).repr ++ " remain"] ∧
        Countdown (before.sizeAt 1) (reductionsOf 1 (lines.filterMap revisionShown?))
          (after.sizeAt 1) ∧
        lines.countP Phase.deadEnd.opens = r.stats.backtracks := by
  intro first last m lines
  have hvalid : m.validate = .ok () := by decide
  have hcount : m.eventCount * m.rangeLength = 9 := by decide
  rcases run_replayed m hvalid {} .quiet with
      ⟨r, net, before, after, hrun, -, hbefore, hafter, hreplays⟩
  have hnode := hreplays.node_summary
  have harc := hreplays.arc_summary
  rw [hcount] at hnode harc
  exact ⟨hvalid, r, before, after, hrun, hbefore, hafter, hnode, harc, hreplays.countdown 1,
    hreplays.backtracks_eq⟩

end Solver
end DateScheduling
