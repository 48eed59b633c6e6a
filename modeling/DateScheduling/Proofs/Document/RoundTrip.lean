import DateScheduling.Document.Codec

/-!
# Documents that were written are read back

Reading accepts more documents than writing produces: a structure may be a list
of its values, a record may have its fields in another order and among others
as long as none of them stands twice, a name may be a record with nothing in it,
and a date may stand in any text that denotes it.  What is read can always be
written, and the written form, which is the same for all of these documents, is
read as the same value.

Main results:

- Theorem `Document.RoundTrips.faithful`: what follows from reading back what was
  written.
- Theorem `Document.Presents.structFields?_eq`: all ways to write a structure have
  the same values.
- Theorem `documents_faithful`: values of all types that are exchanged are read
  back.
-/

namespace DateScheduling

open Document

/-! ## Reading against writing -/

namespace Document

variable {α : Type} {read : Document → Option α} {write : α → Document} {Fits : α → Prop}

/-- A value that fits the format is read back when it was written, and only such
values are read. -/
structure RoundTrips (read : Document → Option α) (write : α → Document) (Fits : α → Prop) :
    Prop where
  read_write : ∀ {a}, Fits a → read (write a) = some a
  fits_of_read : ∀ {doc a}, read doc = some a → Fits a

/-- Writing loses nothing, and every document that can be read has a canonical form:
the one in which its value is written. -/
structure Faithful [DecidableEq α] (read : Document → Option α) (write : α → Document)
    (Fits : α → Prop) : Prop where
  read_write : ∀ a, Fits a → read (write a) = some a
  injective : ∀ a b, Fits a → Fits b → write a = write b → a = b
  /-- The canonical form is read as the same value, and is its own canonical form. -/
  canonical : ∀ doc a, read doc = some a → Fits a ∧ read (write a) = some a ∧
    canonical? read write doc = some (write a, true) ∧
    canonical? read write (write a) = some (write a, true)

/-- Reading back what was written is enough for all of this. -/
theorem RoundTrips.faithful [DecidableEq α] (h : RoundTrips read write Fits) :
    Faithful read write Fits where
  read_write a ha := h.read_write ha
  injective a b ha hb hab := by
    have hread := h.read_write ha
    rw [hab, h.read_write hb, Option.some.injEq] at hread
    exact hread.symm
  canonical doc a hdoc := by
    have hread := h.read_write (h.fits_of_read hdoc)
    refine ⟨h.fits_of_read hdoc, hread, ?_, ?_⟩
    · simp [canonical?, hdoc, hread]
    · simp [canonical?, hread]

/-- The items of a list are read back one by one. -/
theorem RoundTrips.list (h : RoundTrips read write Fits) :
    RoundTrips (list? read) (fun items => .list (items.map write))
      (fun items => ∀ a ∈ items, Fits a) where
  read_write {items} hitems := by
    unfold list?
    induction items with
    | nil => rfl
    | cons a rest ih =>
        rw [List.forall_mem_cons] at hitems
        simp [h.read_write hitems.1, ih hitems.2]
  fits_of_read {doc items} hdoc := by
    unfold list? at hdoc
    split at hdoc
    · rename_i docs
      induction docs generalizing items with
      | nil =>
          cases hdoc
          simp
      | cons first rest ih =>
          simp only [List.mapM_cons, Option.bind_eq_bind, Option.bind_eq_some_iff,
            Option.pure_def, Option.some.injEq] at hdoc
          rcases hdoc with ⟨a, ha, as, has, rfl⟩
          rw [List.forall_mem_cons]
          exact ⟨h.fits_of_read ha, ih has⟩
    · cases hdoc

/-- Numbers that are read fit 64 bits. -/
theorem lt_of_natural? {doc : Document} {n : Nat} (h : natural? doc = some n) :
    n < wordBound := by
  unfold natural? at h
  split at h
  · split at h
    · cases h
      assumption
    · cases h
  · cases h

/-! ## Ways to write a structure -/

/-- The document has the same values as the record with the given fields: it is the
list of these values in order, or a record in which each field stands once and has
its value, whatever other fields there are. -/
inductive Presents (fields : List (String × Document)) : Document → Prop where
  | inOrder : Presents fields (.list (fields.map Prod.snd))
  | byName {others : List (String × Document)}
      (h : ∀ name value, (name, value) ∈ fields → valuesOf others name = [value]) :
      Presents fields (.record others)

/-- A record that has all fields is read like the record of these fields. -/
theorem recordFields?_eq (specs : List FieldSpec) {fields others : List (String × Document)}
    (hnames : specs.map FieldSpec.name = fields.map Prod.fst)
    (h : ∀ name value, (name, value) ∈ fields → valuesOf others name = [value]) :
    recordFields? specs (.record others) = some (fields.map Prod.snd) := by
  change specs.mapM (·.find? others) = _
  induction specs generalizing fields with
  | nil =>
      have hnil : fields = [] := by simpa using hnames.symm
      rw [hnil]
      rfl
  | cons spec specs ih =>
      cases fields with
      | nil => cases hnames
      | cons field fields =>
          rcases field with ⟨name, value⟩
          rw [List.map_cons, List.map_cons, List.cons.injEq] at hnames
          have hfirst : spec.find? others = some value := by
            unfold FieldSpec.find?
            rw [hnames.1, h name value List.mem_cons_self]
          have hrest := ih hnames.2 fun name' value' hmem =>
            h name' value' (List.mem_cons_of_mem _ hmem)
          rw [List.mapM_cons, hfirst, hrest]
          rfl

/-- All ways to write a structure have the same values. -/
theorem Presents.structFields?_eq (specs : List FieldSpec) {fields : List (String × Document)}
    {doc : Document} (hdoc : Presents fields doc)
    (hnames : specs.map FieldSpec.name = fields.map Prod.fst) :
    structFields? specs doc = some (fields.map Prod.snd) := by
  cases hdoc with
  | inOrder =>
      have hlength := congrArg List.length hnames
      rw [List.length_map, List.length_map] at hlength
      simp [structFields?, hlength]
  | byName h => exact recordFields?_eq specs hnames h

/-- A structure is read from every document that presents its fields. -/
def ReadsStructure (read : Document → Option α) (write : α → Document) (Fits : α → Prop) : Prop :=
  ∀ a fields doc, Fits a → write a = .record fields → Presents fields doc → read doc = some a

/-- A choice is read from its name, and from the record with its name and nothing in it. -/
def ReadsChoice (read : Document → Option α) (write : α → Document) : Prop :=
  ∀ a name, write a = .text name → read (.record [(name, .null)]) = some a

/-- The value of a field stands once under its name if no name stands twice. -/
theorem valuesOf_eq_singleton {fields : List (String × Document)}
    (hnodup : (fields.map Prod.fst).Nodup) {name : String} {value : Document}
    (hmem : (name, value) ∈ fields) : valuesOf fields name = [value] := by
  unfold valuesOf
  induction fields with
  | nil => cases hmem
  | cons field fields ih =>
      rw [List.map_cons, List.nodup_cons] at hnodup
      rcases List.mem_cons.mp hmem with rfl | hmem
      · have hnone : fields.filter (·.1 = name) = [] := by
          rw [List.filter_eq_nil_iff]
          intro other hother heq
          exact hnodup.1 (List.mem_map.mpr ⟨other, hother, of_decide_eq_true heq⟩)
        rw [List.filter_cons, if_pos (decide_eq_true rfl), hnone]
        rfl
      · have hne : field.1 ≠ name := by
          rintro rfl
          exact hnodup.1 (List.mem_map.mpr ⟨_, hmem, rfl⟩)
        rw [List.filter_cons_of_neg (by simpa using hne)]
        exact ih hnodup.2 hmem

/-- A record presents its own fields if no name stands twice. -/
theorem Presents.record {fields : List (String × Document)}
    (hnodup : (fields.map Prod.fst).Nodup) : Presents fields (.record fields) :=
  .byName fun _ _ => valuesOf_eq_singleton hnodup

end Document

/-! ## Comparisons, dates and statuses -/

theorem Date.ofDocument?_toDocument (d : Date) : Date.ofDocument? d.toDocument = some d := by
  unfold Date.ofDocument? Date.toDocument
  rw [text?, Option.bind_some, Date.ofText?_toText]

/-- A date is read from every text that denotes it, and from no other. -/
theorem Date.ofDocument?_text_iff {text : String} {d : Date} :
    Date.ofDocument? (.text text) = some d ↔ d.IsDenoted text.toList :=
  Date.ofChars?_eq_some_iff

/-- Every date is read back. -/
theorem Date.roundTrips : RoundTrips Date.ofDocument? Date.toDocument (fun _ => True) :=
  ⟨fun _ => Date.ofDocument?_toDocument _, fun _ => trivial⟩

/-- Every comparison is read back. -/
theorem Comparison.roundTrips :
    RoundTrips Comparison.ofDocument? Comparison.toDocument (fun _ => True) :=
  ⟨fun _ => Comparison.ofDocument?_toDocument _, fun _ => trivial⟩

/-- Every status is read back. -/
theorem Status.roundTrips : RoundTrips Status.ofDocument? Status.toDocument (fun _ => True) :=
  ⟨fun _ => Status.ofDocument?_toDocument _, fun _ => trivial⟩

/-- A comparison is also read from a record with its name. -/
theorem Comparison.readsChoice : ReadsChoice Comparison.ofDocument? Comparison.toDocument := by
  intro op name hname
  cases hname
  exact op.ofDocument?_toDocument

/-- A status is also read from a record with its name. -/
theorem Status.readsChoice : ReadsChoice Status.ofDocument? Status.toDocument := by
  intro s name hname
  cases hname
  exact s.ofDocument?_toDocument

/-! ## Constraints and models -/

namespace Constraint

/-- The events of the constraint fit 64 bits. -/
def Fits : Constraint → Prop
  | unary var _ _ => var < wordBound
  | binary left _ right => left < wordBound ∧ right < wordBound

instance (c : Constraint) : Decidable c.Fits := by
  cases c <;> unfold Fits <;> infer_instance

/-- The document has the contents of the constraint under its kind, whatever
other fields these contents have. -/
inductive Tagged (c : Constraint) : Document → Prop where
  | mk {kind : String} {fields others : List (String × Document)}
      (hwrite : c.toDocument = .record [(kind, .record fields)])
      (h : ∀ name value, (name, value) ∈ fields → valuesOf others name = [value]) :
      Tagged c (.record [(kind, .record others)])

/-- A constraint is read from every document that has its contents. -/
theorem Tagged.ofDocument?_eq {c : Constraint} {doc : Document} (hdoc : c.Tagged doc)
    (hc : c.Fits) : Constraint.ofDocument? doc = some c := by
  rcases hdoc with ⟨hwrite, h⟩
  cases c with
  | unary var op bound =>
      cases hwrite
      have hfields := recordFields?_eq
        [required "var", required "op", required "bound"] rfl h
      simp [Constraint.ofDocument?, unaryOfDocument?, hfields, natural?_ofNat hc,
        Comparison.ofDocument?_toDocument, Date.ofDocument?_toDocument]
  | binary left op right =>
      cases hwrite
      have hfields := recordFields?_eq
        [required "left", required "op", required "right"] rfl h
      simp [Constraint.ofDocument?, binaryOfDocument?, hfields, natural?_ofNat hc.1,
        natural?_ofNat hc.2, Comparison.ofDocument?_toDocument]

/-- A constraint that was written has its contents. -/
theorem tagged_toDocument (c : Constraint) : c.Tagged c.toDocument := by
  cases c with
  | unary var op bound => exact .mk rfl fun _ _ => valuesOf_eq_singleton (by simp)
  | binary left op right => exact .mk rfl fun _ _ => valuesOf_eq_singleton (by simp)

/-- Constraints are read back. -/
theorem roundTrips : RoundTrips Constraint.ofDocument? Constraint.toDocument Fits where
  read_write hc := (tagged_toDocument _).ofDocument?_eq hc
  fits_of_read {doc c} hdoc := by
    unfold Constraint.ofDocument? at hdoc
    split at hdoc
    · rename_i kind body
      split at hdoc
      · unfold unaryOfDocument? at hdoc
        split at hdoc
        · simp only [Option.bind_eq_bind, Option.bind_eq_some_iff, Option.pure_def,
            Option.some.injEq] at hdoc
          rcases hdoc with ⟨var, hvar, op, -, bound, -, rfl⟩
          exact lt_of_natural? hvar
        · cases hdoc
      · split at hdoc
        · unfold binaryOfDocument? at hdoc
          split at hdoc
          · simp only [Option.bind_eq_bind, Option.bind_eq_some_iff, Option.pure_def,
              Option.some.injEq] at hdoc
            rcases hdoc with ⟨left, hleft, op, -, right, hright, rfl⟩
            exact ⟨lt_of_natural? hleft, lt_of_natural? hright⟩
          · cases hdoc
        · cases hdoc
    · cases hdoc

end Constraint

namespace Model

/-- The numbers of the model fit 64 bits. -/
def Fits (m : Model) : Prop :=
  m.eventCount < wordBound ∧ ∀ c ∈ m.constraints, c.Fits

instance (m : Model) : Decidable m.Fits := by
  unfold Fits
  infer_instance

/-- A model is read from every document that presents its fields. -/
theorem readsStructure : ReadsStructure Model.ofDocument? Model.toDocument Fits := by
  intro m fields doc hm hwrite hdoc
  cases hwrite
  have hfields := hdoc.structFields?_eq
    [required "num_variables", required "start", required "end", required "constraints"] rfl
  have hconstraints := Constraint.roundTrips.list.read_write hm.2
  simp [Model.ofDocument?, hfields, natural?_ofNat hm.1, Date.ofDocument?_toDocument,
    hconstraints]

/-- Models are read back. -/
theorem roundTrips : RoundTrips Model.ofDocument? Model.toDocument Fits where
  read_write hm := readsStructure _ _ _ hm rfl (.record (by simp))
  fits_of_read {doc m} hdoc := by
    unfold Model.ofDocument? at hdoc
    split at hdoc
    · simp only [Option.bind_eq_bind, Option.bind_eq_some_iff, Option.pure_def,
        Option.some.injEq] at hdoc
      rcases hdoc with ⟨n, hn, first, -, last, -, cs, hcs, rfl⟩
      exact ⟨lt_of_natural? hn, Constraint.roundTrips.list.fits_of_read hcs⟩
    · cases hdoc

end Model

/-! ## Configurations and results -/

namespace Config

/-- The limits of the configuration fit 64 bits. -/
def Fits (c : Config) : Prop :=
  c.maxNodes < wordBound ∧ c.timeLimitMs < wordBound

/-- A configuration is read from every document that presents its fields. -/
theorem readsStructure : ReadsStructure Config.ofDocument? Config.toDocument Fits := by
  intro c fields doc hc hwrite hdoc
  cases hwrite
  have hfields := hdoc.structFields?_eq
    [required "node_consistency", required "arc_consistency", required "max_nodes",
      required "time_limit_ms"] rfl
  simp [Config.ofDocument?, hfields, bool?, natural?_ofNat hc.1, natural?_ofNat hc.2]

/-- Configurations are read back. -/
theorem roundTrips : RoundTrips Config.ofDocument? Config.toDocument Fits where
  read_write hc := readsStructure _ _ _ hc rfl (.record (by simp))
  fits_of_read {doc c} hdoc := by
    unfold Config.ofDocument? at hdoc
    split at hdoc
    · simp only [Option.bind_eq_bind, Option.bind_eq_some_iff, Option.pure_def,
        Option.some.injEq] at hdoc
      rcases hdoc with ⟨node, -, arc, -, nodes, hnodes, ms, hms, rfl⟩
      exact ⟨lt_of_natural? hnodes, lt_of_natural? hms⟩
    · cases hdoc

end Config

namespace Stats

/-- All counters fit 64 bits. -/
structure Fits (s : Stats) : Prop where
  nodePruned : s.nodePruned < wordBound
  arcPruned : s.arcPruned < wordBound
  arcRevisions : s.arcRevisions < wordBound
  nodes : s.nodes < wordBound
  backtracks : s.backtracks < wordBound
  solveTimeMs : s.solveTimeMs < wordBound

/-- Counters are read from every document that presents them. -/
theorem readsStructure : ReadsStructure Stats.ofDocument? Stats.toDocument Fits := by
  intro s fields doc hs hwrite hdoc
  cases hwrite
  have hfields := hdoc.structFields?_eq
    [required "node_pruned", required "arc_pruned", required "arc_revisions", required "nodes",
      required "backtracks", required "solve_time_ms"] rfl
  simp [Stats.ofDocument?, hfields, natural?_ofNat hs.nodePruned, natural?_ofNat hs.arcPruned,
    natural?_ofNat hs.arcRevisions, natural?_ofNat hs.nodes, natural?_ofNat hs.backtracks,
    natural?_ofNat hs.solveTimeMs]

/-- Counters are read back. -/
theorem roundTrips : RoundTrips Stats.ofDocument? Stats.toDocument Fits where
  read_write hs := readsStructure _ _ _ hs rfl (.record (by simp))
  fits_of_read {doc s} hdoc := by
    unfold Stats.ofDocument? at hdoc
    split at hdoc
    · simp only [Option.bind_eq_bind, Option.bind_eq_some_iff, Option.pure_def,
        Option.some.injEq] at hdoc
      rcases hdoc with ⟨_, hnode, _, harc, _, hrevisions, _, hnodes, _, hbacktracks, _, hms, rfl⟩
      exact ⟨lt_of_natural? hnode, lt_of_natural? harc, lt_of_natural? hrevisions,
        lt_of_natural? hnodes, lt_of_natural? hbacktracks, lt_of_natural? hms⟩
    · cases hdoc

end Stats

namespace Result

/-- The counters of the result fit 64 bits. -/
def Fits (r : Result) : Prop :=
  r.stats.Fits

theorem assignmentOfDocument?_assignmentToDocument (assignment : Option (Array Date)) :
    assignmentOfDocument? (assignmentToDocument assignment) = some assignment := by
  cases assignment with
  | none => rfl
  | some dates =>
      have hread : (list? Date.ofDocument?) (.list (dates.toList.map Date.toDocument)) =
          some dates.toList :=
        Date.roundTrips.list.read_write fun _ _ => trivial
      simp [assignmentToDocument, assignmentOfDocument?, option?, hread]

/-- The values of a result, with its dates among them, are enough to read it. -/
theorem ofDocument?_of_structFields? {r : Result} {doc : Document} (hr : r.Fits)
    (h : structFields? [required "status", nullable "assignment", required "stats"] doc =
      some [r.status.toDocument, assignmentToDocument r.assignment, r.stats.toDocument]) :
    Result.ofDocument? doc = some r := by
  simp [Result.ofDocument?, h, Status.ofDocument?_toDocument,
    assignmentOfDocument?_assignmentToDocument, Stats.roundTrips.read_write hr]

/-- A result is read from every document that presents its fields. -/
theorem readsStructure : ReadsStructure Result.ofDocument? Result.toDocument Fits := by
  intro r fields doc hr hwrite hdoc
  cases hwrite
  exact ofDocument?_of_structFields? hr (hdoc.structFields?_eq _ rfl)

/-- A result without dates is also read from a record that does not mention them. -/
theorem ofDocument?_of_missing {r : Result} {others : List (String × Document)} (hr : r.Fits)
    (hnone : r.assignment = none) (hstatus : valuesOf others "status" = [r.status.toDocument])
    (hmissing : valuesOf others "assignment" = [])
    (hstats : valuesOf others "stats" = [r.stats.toDocument]) :
    Result.ofDocument? (.record others) = some r := by
  refine ofDocument?_of_structFields? hr ?_
  simp [structFields?, recordFields?, FieldSpec.find?, required, nullable, hstatus, hmissing,
    hstats, hnone, assignmentToDocument]

/-- Results are read back. -/
theorem roundTrips : RoundTrips Result.ofDocument? Result.toDocument Fits where
  read_write hr := readsStructure _ _ _ hr rfl (.record (by simp))
  fits_of_read {doc r} hdoc := by
    unfold Result.ofDocument? at hdoc
    split at hdoc
    · simp only [Option.bind_eq_bind, Option.bind_eq_some_iff, Option.pure_def,
        Option.some.injEq] at hdoc
      rcases hdoc with ⟨status, -, assignment, -, stats, hstats, rfl⟩
      exact Stats.roundTrips.fits_of_read hstats
    · cases hdoc

end Result

/-! ## All types that are exchanged -/

/-- Values of all seven types are read back when they were written, so that
different values are written differently, and whatever document is read has a
canonical form with the same value.  Choices, constraints, structures and results
without dates have the same value in all forms in which they may be written.  The
same is true of the dates in them: a date is read from the texts that denote it. -/
theorem documents_faithful :
    (Faithful Date.ofDocument? Date.toDocument (fun _ => True) ∧
      ∀ d text, Date.ofDocument? (.text text) = some d ↔ d.IsDenoted text.toList) ∧
    (Faithful Comparison.ofDocument? Comparison.toDocument (fun _ => True) ∧
      ReadsChoice Comparison.ofDocument? Comparison.toDocument) ∧
    (Faithful Constraint.ofDocument? Constraint.toDocument Constraint.Fits ∧
      ∀ c doc, Constraint.Fits c → c.Tagged doc → Constraint.ofDocument? doc = some c) ∧
    (Faithful Model.ofDocument? Model.toDocument Model.Fits ∧
      ReadsStructure Model.ofDocument? Model.toDocument Model.Fits) ∧
    (Faithful Config.ofDocument? Config.toDocument Config.Fits ∧
      ReadsStructure Config.ofDocument? Config.toDocument Config.Fits) ∧
    (Faithful Status.ofDocument? Status.toDocument (fun _ => True) ∧
      ReadsChoice Status.ofDocument? Status.toDocument) ∧
    (Faithful Stats.ofDocument? Stats.toDocument Stats.Fits ∧
      ReadsStructure Stats.ofDocument? Stats.toDocument Stats.Fits) ∧
    (Faithful Result.ofDocument? Result.toDocument Result.Fits ∧
      ReadsStructure Result.ofDocument? Result.toDocument Result.Fits ∧
      ∀ r others, Result.Fits r → r.assignment = none →
        valuesOf others "status" = [r.status.toDocument] →
        valuesOf others "assignment" = [] →
        valuesOf others "stats" = [r.stats.toDocument] →
        Result.ofDocument? (.record others) = some r) :=
  ⟨⟨Date.roundTrips.faithful, fun _ _ => Date.ofDocument?_text_iff⟩,
    ⟨Comparison.roundTrips.faithful, Comparison.readsChoice⟩,
    ⟨Constraint.roundTrips.faithful, fun _ _ hc hdoc => hdoc.ofDocument?_eq hc⟩,
    ⟨Model.roundTrips.faithful, Model.readsStructure⟩,
    ⟨Config.roundTrips.faithful, Config.readsStructure⟩,
    ⟨Status.roundTrips.faithful, Status.readsChoice⟩,
    ⟨Stats.roundTrips.faithful, Stats.readsStructure⟩,
    ⟨Result.roundTrips.faithful, Result.readsStructure,
      fun _ _ => Result.ofDocument?_of_missing⟩⟩

/-- A model whose range leaves the years 0 to 9999 on both sides, written as a list
of its values, with dates in their canonical form and in another one; and a result
whose status is a record and which does not mention dates. -/
theorem documents_faithful_of_list :
    let first : Date := ⟨-1, 12, 31, by decide⟩
    let last : Date := ⟨10000, 1, 1, by decide⟩
    let m : Model := ⟨2, ⟨first, last⟩, [.unary 0 .notEqual last, .binary 0 .before 1]⟩
    let items : List Document := [ofNat 2, .text "-0001-12-31", .text "+10000-01-01",
      .list (m.constraints.map Constraint.toDocument)]
    let loose : List Document := [ofNat 2, .text " -1-12 -31", .text "+00010000-1- 1 ",
      .list (m.constraints.map Constraint.toDocument)]
    let r : Result := ⟨.timeout, none, ⟨1, 2, 3, 4, 5, wordBound - 1⟩⟩
    let others : List (String × Document) := [("stats", r.stats.toDocument),
      ("note", .bool true), ("status", r.status.toDocument)]
    m.Fits ∧ r.Fits ∧ Model.ofDocument? (.list items) = some m ∧
      canonical? Model.ofDocument? Model.toDocument (.list items) = some (m.toDocument, true) ∧
      canonical? Model.ofDocument? Model.toDocument (.list loose) = some (m.toDocument, true) ∧
      Status.ofDocument? (.record [("Timeout", .null)]) = some .timeout ∧
      Result.ofDocument? (.record others) = some r ∧
      canonical? Result.ofDocument? Result.toDocument (.record others) =
        some (r.toDocument, true) := by
  intro first last m items loose r others
  have hm : m.Fits := by decide
  have hr : r.Fits := by constructor <;> decide
  have hfirst : first.toDocument = .text "-0001-12-31" := congrArg Document.text (by decide)
  have hlast : last.toDocument = .text "+10000-01-01" := congrArg Document.text (by decide)
  rcases documents_faithful with
      ⟨-, -, -, ⟨hmodel, hlist⟩, -, ⟨-, hchoice⟩, -, hresult, -, hmissing⟩
  have hitems : Model.ofDocument? (.list items) = some m := by
    have hpresents : Presents [("num_variables", ofNat 2), ("start", first.toDocument),
        ("end", last.toDocument),
        ("constraints", .list (m.constraints.map Constraint.toDocument))] (.list items) := by
      rw [hfirst, hlast]
      exact .inOrder
    exact hlist m _ _ hm rfl hpresents
  have hloose : Model.ofDocument? (.list loose) = some m := by
    have hearly : Date.ofDocument? (.text " -1-12 -31") = some first := by decide
    have hlate : Date.ofDocument? (.text "+00010000-1- 1 ") = some last := by decide
    have hconstraints := Constraint.roundTrips.list.read_write hm.2
    have hcount : natural? (ofNat 2) = some 2 := natural?_ofNat (by decide)
    simp only [Model.ofDocument?, structFields?, loose, List.length_cons, List.length_nil,
      if_true, hcount, hearly, hlate, hconstraints, Option.bind_eq_bind, Option.bind_some]
    rfl
  have hothers : Result.ofDocument? (.record others) = some r :=
    hmissing r others hr rfl rfl rfl rfl
  exact ⟨hm, hr, hitems, (hmodel.canonical _ _ hitems).2.2.1,
    (hmodel.canonical _ _ hloose).2.2.1, hchoice .timeout "Timeout" rfl,
    hothers, (hresult.canonical _ _ hothers).2.2.1⟩

end DateScheduling
