import MappingForms.Proofs.Batch.Reassembly
import MappingForms.Proofs.Discovery

/-!
Contract: every wanted form of every specification is accounted for, once.

Owns: the forms that are due, the codes under which they are refused, and the artifacts and
diagnostics of a batch in terms of these.

A form that is due gives one artifact, or one diagnostic that names the specification. No
form gives both, and there is nothing else in a batch but the diagnostics of discovery and
one warning for each unsafe specification.
-/

set_option autoImplicit false

namespace MappingForms

private theorem DiagnosticCode.display_injective : Function.Injective DiagnosticCode.display := by
  intro first second
  cases first <;> cases second <;> decide

namespace Batch

/-! ## Forms that are due -/

/-- The body of a specification with calls expanded and optional links as they were. -/
def inlined (shared : Shared) (spec : Specification) : Expr :=
  Inliner.inline
    { callables := shared.callables, cycles := shared.cycles, policy := spec.options.links }
    spec.body

/-- The forms that a specification has to be given or refused. An update form is due only where
the specification is safe. -/
def dueForms (shared : Shared) (spec : Specification) : List ArtifactKind :=
  (if spec.options.expression then [.expression] else []) ++
    (if spec.options.update && !shared.cycles.isUnsafe spec.id then [.update] else [])

/-- The code under which a form is refused, if it is. -/
def refusal? (shared : Shared) (spec : Specification) : ArtifactKind → Option DiagnosticCode
  | .expression =>
    if spec.options.links = .keep ∧ (inlined shared spec).containsOptionalLink then
      some .optionalChainUnsupported
    else
      none
  | .update =>
    if spec.returnType.isValue then some .valueTypeUpdate
    else match transformed shared spec spec.body with
      | .construct _ _ initializers =>
        if initializers.isEmpty then some .nothingToUpdate else none
      | _ => some .updateNeedsConstruction

private theorem refusal?_expression_eq_some_iff {shared : Shared} {spec : Specification}
    {code : DiagnosticCode} :
    refusal? shared spec .expression = some code ↔
      code.display = "MF0003" ∧ spec.options.links = .keep ∧
        (inlined shared spec).containsOptionalLink = true := by
  have displayed : code.display = "MF0003" ↔ code = .optionalChainUnsupported :=
    DiagnosticCode.display_injective.eq_iff' rfl
  rw [refusal?, displayed, Option.ite_none_right_eq_some, Option.some_inj, and_comm, eq_comm]

/-- A value is refused before its body is looked at, and a body that constructs nothing before
its initializers are. -/
theorem refusal?_update_eq_some_iff {shared : Shared} {spec : Specification}
    {code : DiagnosticCode} :
    refusal? shared spec .update = some code ↔
      code.display = "MF0005" ∧ spec.returnType.isValue = true ∨
      code.display = "MF0007" ∧ spec.returnType.isValue = false ∧
        (∀ type arguments initializers,
          transformed shared spec spec.body ≠ .construct type arguments initializers) ∨
      code.display = "MF0006" ∧ spec.returnType.isValue = false ∧
        ∃ type arguments, transformed shared spec spec.body = .construct type arguments [] := by
  have valueType : code.display = "MF0005" ↔ code = .valueTypeUpdate :=
    DiagnosticCode.display_injective.eq_iff' rfl
  have noConstruction : code.display = "MF0007" ↔ code = .updateNeedsConstruction :=
    DiagnosticCode.display_injective.eq_iff' rfl
  have nothing : code.display = "MF0006" ↔ code = .nothingToUpdate :=
    DiagnosticCode.display_injective.eq_iff' rfl
  rw [valueType, noConstruction, nothing, refusal?]
  cases spec.returnType.isValue with
  | true => simp [eq_comm]
  | false =>
    cases transformed shared spec spec.body with
    | construct type arguments initializers =>
      have constructs : ¬∀ otherType otherArguments others,
          Expr.construct type arguments initializers ≠
            .construct otherType otherArguments others :=
        fun differs => differs _ _ _ rfl
      simp only [constructs]
      cases initializers <;> simp [eq_comm]
    | _ => simp [eq_comm]

def generatedForms (shared : Shared) (spec : Specification) : List ArtifactKind :=
  (dueForms shared spec).filter fun kind => (refusal? shared spec kind).isNone

def refusals (shared : Shared) (spec : Specification) : List DiagnosticCode :=
  (dueForms shared spec).filterMap (refusal? shared spec)

/-- What an artifact is known by: its kind, its file name and its specification. -/
def label (artifact : Artifact) : ArtifactKind × String × CallableId :=
  (artifact.kind, artifact.name, artifact.spec)

def formLabel (spec : Specification) (kind : ArtifactKind) : ArtifactKind × String × CallableId :=
  (kind, Artifact.fileName spec kind, spec.id)

/-- What a diagnostic is about: its code and the specification that it names. -/
def subject (diagnostic : Diagnostic) : DiagnosticCode × Option CallableId :=
  (diagnostic.code, diagnostic.spec)

/-! ## One specification -/

private theorem label_of_ofExpression {spec : Specification} {body : Expr}
    {context : NullableContext}
    {artifact : Artifact} (generated : Artifact.ofExpression spec body context = .ok artifact) :
    label artifact = formLabel spec .expression := by
  unfold Artifact.ofExpression at generated
  split at generated
  · cases generated
  · cases generated
    rfl

private theorem label_of_updateForm {spec : Specification} {body : Expr} {context : NullableContext}
    {artifact : Artifact} (generated : updateForm spec body context = .ok artifact) :
    label artifact = formLabel spec .update := by
  unfold updateForm at generated
  cases planned : UpdatePlan.ofBody spec body context with
  | error error =>
    rw [planned] at generated
    cases generated
  | ok plan =>
    rw [planned] at generated
    cases generated
    rfl

/-- The code of the error that a form ends in. -/
def refusalCode? : Except FormError Artifact → Option DiagnosticCode
  | .ok _ => none
  | .error error => some error.code

private theorem refusalCode?_ofExpression (shared : Shared) (spec : Specification) :
    refusalCode? (Artifact.ofExpression spec (transformed shared spec spec.body) shared.context) =
      refusal? shared spec .expression := by
  unfold Artifact.ofExpression refusal?
  by_cases keeps : spec.options.links = .keep
  · -- Links that are kept are those of the expanded body.
    have untouched : transformed shared spec spec.body = inlined shared spec := by
      show (inlined shared spec).resolveLinks spec.options.links shared.context = _
      rw [keeps]
      rfl
    rw [untouched]
    split
    · rfl
    · rfl
  · rw [if_neg fun both => keeps both.1, if_neg fun both => keeps both.1]
    rfl

private theorem refusalCode?_updateForm (shared : Shared) (spec : Specification) :
    refusalCode? (updateForm spec (transformed shared spec spec.body) shared.context) =
      refusal? shared spec .update := by
  unfold updateForm UpdatePlan.ofBody refusal?
  split
  · rfl
  · cases transformed shared spec spec.body with
    | construct type arguments initializers => cases initializers <;> rfl
    | _ => rfl

/-- A form that is due gives one artifact or one diagnostic, and one that is not gives nothing. -/
theorem account_ofForm (shared : Shared) {spec : Specification} {kind : ArtifactKind}
    {form : Except FormError Artifact} (due : Bool)
    (labelled : ∀ artifact, form = .ok artifact → label artifact = formLabel spec kind)
    (refused : refusalCode? form = refusal? shared spec kind) :
    (if due then SpecOutput.ofForm spec form else {}).artifacts.map label =
      ((if due then [kind] else []).filter fun kind => (refusal? shared spec kind).isNone).map
        (formLabel spec) ∧
    (if due then SpecOutput.ofForm spec form else {}).diagnostics.map subject =
      ((if due then [kind] else []).filterMap (refusal? shared spec)).map
        fun code => (code, some spec.id) := by
  cases due with
  | false => exact ⟨rfl, rfl⟩
  | true =>
    cases form with
    | ok artifact =>
      have generated : refusal? shared spec kind = none := refused.symm
      simp [SpecOutput.ofForm, generated, labelled artifact rfl]
    | error error =>
      have isRefused : refusal? shared spec kind = some error.code := refused.symm
      simp [SpecOutput.ofForm, isRefused, subject]

/-- The output of a specification holds its generated forms and the refusals of the others. -/
theorem account_generateSpec (shared : Shared) (spec : Specification) :
    (generateSpec shared spec).artifacts.map label =
      (generatedForms shared spec).map (formLabel spec) ∧
    (generateSpec shared spec).diagnostics.map subject =
      (refusals shared spec).map fun code => (code, some spec.id) := by
  have expression := account_ofForm shared spec.options.expression
    (fun _ => label_of_ofExpression) (refusalCode?_ofExpression shared spec)
  have update := account_ofForm shared (spec.options.update && !shared.cycles.isUnsafe spec.id)
    (fun _ => label_of_updateForm) (refusalCode?_updateForm shared spec)
  constructor
  · unfold generatedForms dueForms
    rw [List.filter_append, List.map_append, ← expression.1, ← update.1]
    exact List.map_append
  · unfold refusals dueForms
    rw [List.filterMap_append, List.map_append, ← expression.2, ← update.2]
    exact List.map_append

/-! ## Warnings and errors -/

private theorem subject_cycleWarnings (cycles : CycleReport) (specs : List Specification) :
    (specs.filterMap (cycleWarning? cycles)).map subject =
      (specs.filter fun spec => cycles.isUnsafe spec.id).map fun spec =>
        (.callCycle, some spec.id) := by
  induction specs with
  | nil => rfl
  | cons spec rest inductionHypothesis =>
    rw [List.filterMap_cons, List.filter_cons]
    cases found : cycles.get? spec.id with
    | none =>
      have isSafe : cycles.isUnsafe spec.id = false := (cycles.contains_eq_false_iff _).2 found
      simpa [cycleWarning?, found, isSafe] using inductionHypothesis
    | some reason =>
      have isUnsafe : cycles.isUnsafe spec.id = true :=
        (cycles.contains_eq_true_iff _).2 ⟨reason, found⟩
      simpa [cycleWarning?, found, isUnsafe, subject] using inductionHypothesis

private theorem severity_ofForm {spec : Specification} {form : Except FormError Artifact}
    {diagnostic : Diagnostic} (due : Bool)
    (reported : diagnostic ∈ (if due then SpecOutput.ofForm spec form else {}).diagnostics) :
    diagnostic.severity = diagnostic.code.severity := by
  cases due with
  | false => cases reported
  | true =>
    cases form with
    | ok artifact => cases reported
    | error error =>
      obtain rfl := List.mem_singleton.1 reported
      rfl

/-- Every diagnostic of a batch has the severity of its code. -/
theorem severity_of_mem_generate {unit : CompilationUnit} {options : Options}
    {diagnostic : Diagnostic} (reported : diagnostic ∈ (generate unit options).diagnostics) :
    diagnostic.severity = diagnostic.code.severity := by
  rw [generate_diagnostics, List.mem_append, List.mem_append] at reported
  rcases reported with (fromDiscovery | warning) | refused
  · obtain ⟨problem, id, span, rfl⟩ :=
      CompilationUnit.exists_problem_of_mem_diagnostics fromDiscovery
    rfl
  · obtain ⟨spec, -, warns⟩ := List.mem_filterMap.1 warning
    obtain ⟨reason, -, rfl⟩ := Option.map_eq_some_iff.1 warns
    rfl
  · obtain ⟨spec, -, ofSpec⟩ := List.mem_flatMap.1 refused
    rcases List.mem_append.1 ofSpec with expression | update
    · exact severity_ofForm _ expression
    · exact severity_ofForm _ update

/-- Only a refused expression form is an error. -/
theorem exists_error_refusal_iff (shared : Shared) (spec : Specification) :
    (∃ code ∈ refusals shared spec, code.severity = .error) ↔
      spec.options.expression = true ∧ spec.options.links = .keep ∧
        (inlined shared spec).containsOptionalLink = true := by
  have updateIsWarning : ∀ code, refusal? shared spec .update = some code →
      code.severity = .warning := by
    intro code refused
    rcases refusal?_update_eq_some_iff.1 refused with ⟨named, -⟩ | ⟨named, -⟩ | ⟨named, -⟩
    all_goals
      revert named
      cases code <;> decide
  constructor
  · rintro ⟨code, listed, isError⟩
    obtain ⟨kind, due, refused⟩ := List.mem_filterMap.1 listed
    cases kind with
    | expression =>
      have wanted : spec.options.expression = true := by
        by_contra unwanted
        simp [dueForms, unwanted] at due
      exact ⟨wanted, (refusal?_expression_eq_some_iff.1 refused).2⟩
    | update =>
      rw [updateIsWarning code refused] at isError
      cases isError
  · rintro ⟨wanted, linked⟩
    refine ⟨.optionalChainUnsupported, ?_, rfl⟩
    apply List.mem_filterMap.2
    refine ⟨.expression, ?_, refusal?_expression_eq_some_iff.2 ⟨rfl, linked⟩⟩
    simp [dueForms, wanted]

private theorem hasErrors_iff (unit : CompilationUnit) (options : Options) :
    (generate unit options).hasErrors = true ↔
      ∃ diagnostic ∈ (generate unit options).diagnostics, diagnostic.code.severity = .error := by
  unfold Result.hasErrors hasErrors
  rw [List.any_eq_true]
  apply exists_congr
  intro diagnostic
  apply and_congr_right
  intro reported
  rw [severity_of_mem_generate reported, beq_iff_eq]

/-- What discovery reports and what is said about cycles are warnings. -/
theorem mem_refusals_of_error {unit : CompilationUnit} {options : Options}
    {diagnostic : Diagnostic} (reported : diagnostic ∈ (generate unit options).diagnostics)
    (isError : diagnostic.code.severity = .error) :
    ∃ spec ∈ (unit.discover options.defaults).specs,
      diagnostic.code ∈ refusals (sharedOf unit options) spec := by
  rw [generate_diagnostics, List.mem_append, List.mem_append] at reported
  rcases reported with (fromDiscovery | warning) | refused
  · obtain ⟨problem, id, span, rfl⟩ :=
      CompilationUnit.exists_problem_of_mem_diagnostics fromDiscovery
    cases problem <;> cases isError
  · obtain ⟨spec, -, warns⟩ := List.mem_filterMap.1 warning
    obtain ⟨reason, -, rfl⟩ := Option.map_eq_some_iff.1 warns
    cases isError
  · obtain ⟨spec, found, ofSpec⟩ := List.mem_flatMap.1 refused
    have about := List.mem_map_of_mem (f := subject) ofSpec
    rw [(account_generateSpec _ spec).2] at about
    obtain ⟨code, listed, same⟩ := List.mem_map.1 about
    obtain rfl : code = diagnostic.code := congrArg Prod.fst same
    exact ⟨spec, found, listed⟩

/-! ## A batch -/

/-- Every wanted form is accounted for, once.

The diagnostics of a batch are those of discovery, one warning for each unsafe specification, and
the refusals. The last two follow the order of declaration, and so do the artifacts. A form that
is due is generated or refused under one code, the expression form of a specification before its
update form, and there is nothing else. The warnings are MF0004. An expression form is refused as
MF0003, if its optional links are to be kept and its expanded body has one. An update form is
refused as MF0005 for a value type, else as MF0007 for a body that is no construction, else as
MF0006 for a construction without initializers. The batch has errors exactly if an expression form
is wanted and would be refused. -/
theorem generate_accounts_for_forms (unit : CompilationUnit) (options : Options) :
    (∃ warnings refused,
      (generate unit options).diagnostics =
        (unit.discover options.defaults).diagnostics ++ warnings ++ refused ∧
      warnings.map subject =
        (((unit.discover options.defaults).specs.filter fun spec =>
          (sharedOf unit options).cycles.isUnsafe spec.id).map fun spec =>
            (.callCycle, some spec.id)) ∧
      refused.map subject =
        (unit.discover options.defaults).specs.flatMap fun spec =>
          (refusals (sharedOf unit options) spec).map fun code => (code, some spec.id)) ∧
    DiagnosticCode.callCycle.display = "MF0004" ∧
    (∀ spec code,
      (refusal? (sharedOf unit options) spec .expression = some code ↔
        code.display = "MF0003" ∧ spec.options.links = .keep ∧
          (inlined (sharedOf unit options) spec).containsOptionalLink = true) ∧
      (refusal? (sharedOf unit options) spec .update = some code ↔
        code.display = "MF0005" ∧ spec.returnType.isValue = true ∨
        code.display = "MF0007" ∧ spec.returnType.isValue = false ∧
          (∀ type arguments initializers,
            transformed (sharedOf unit options) spec spec.body ≠
              .construct type arguments initializers) ∨
        code.display = "MF0006" ∧ spec.returnType.isValue = false ∧
          ∃ type arguments,
            transformed (sharedOf unit options) spec spec.body = .construct type arguments [])) ∧
    (generate unit options).artifacts.map label =
      ((unit.discover options.defaults).specs.flatMap fun spec =>
        (generatedForms (sharedOf unit options) spec).map (formLabel spec)) ∧
    ((generate unit options).hasErrors = true ↔
      ∃ spec ∈ (unit.discover options.defaults).specs,
        spec.options.expression = true ∧ spec.options.links = .keep ∧
          (inlined (sharedOf unit options) spec).containsOptionalLink = true) := by
  refine ⟨⟨_, _, generate_diagnostics unit options, subject_cycleWarnings _ _, ?_⟩, rfl,
    fun spec code => ⟨refusal?_expression_eq_some_iff, refusal?_update_eq_some_iff⟩, ?_, ?_⟩
  · rw [List.map_flatMap]
    simp only [account_generateSpec]
  · rw [generate_artifacts, List.map_flatMap]
    simp only [account_generateSpec]
  · rw [hasErrors_iff]
    constructor
    · rintro ⟨diagnostic, reported, isError⟩
      obtain ⟨spec, found, listed⟩ := mem_refusals_of_error reported isError
      exact ⟨spec, found,
        (exists_error_refusal_iff _ spec).1 ⟨diagnostic.code, listed, isError⟩⟩
    · rintro ⟨spec, found, linked⟩
      obtain ⟨code, listed, isError⟩ := (exists_error_refusal_iff _ spec).2 linked
      -- The refusal stands for a diagnostic of the specification.
      have about : (code, some spec.id) ∈
          (generateSpec (sharedOf unit options) spec).diagnostics.map subject := by
        rw [(account_generateSpec _ spec).2]
        exact List.mem_map_of_mem listed
      obtain ⟨diagnostic, ofSpec, same⟩ := List.mem_map.1 about
      obtain rfl : diagnostic.code = code := congrArg Prod.fst same
      refine ⟨diagnostic, ?_, isError⟩
      rw [generate_diagnostics]
      exact List.mem_append_right _ (List.mem_flatMap.2 ⟨spec, found, ofSpec⟩)

end Batch

end MappingForms
