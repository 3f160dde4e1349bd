import SelfTypeLint.Proofs.Diagnostic.Queue
import SelfTypeLint.Proofs.Fix.Actionable

/-!
# Reports of an analysis

The order of reports looks at the place and the rule of a diagnostic, and leaves diagnostics that agree in
both in the order of their arrival. In an analysis these are repetitions: an argument stands in the base
list of one declaration, and a type parameter is declared at a place once, whichever declaration or part
is found to be wrong there. So the report of an analysis is one list (`report_analyzeAll`).
-/

namespace SelfTypeLint

/-- Holds of a diagnostic that reports what is found in a declaration. -/
structure Analysis.Reports (host : Host) (d : Diagnostic) (e : TypeDecl) (f : Finding) : Prop where
  declared : ∃ tree, host.syntaxTree d.location.file = some tree ∧ e ∈ tree.typeDecls
  found : Scan.scanDeclaration host.toSemanticModel d.location.file
    (Analysis.configFor host d.location.file) e false = .ok (some f)
  reported : f.toDiagnostic? (Analysis.configFor host d.location.file) d.location.file = some d

namespace Workspace

open Analysis

variable {sources : List SourceText} {a b : Diagnostic} {e e' : TypeDecl} {f f' : Finding}

/-- An analysis ends, and each diagnostic reports what is found in a declaration. -/
theorem exists_reports (sources : List SourceText) :
    ∃ ds, analyzeAll (build sources).host false = .ok ds ∧
      ∀ d ∈ ds, ∃ e f, Reports (build sources).host d e f := by
  obtain ⟨ds, hds, hall⟩ := exists_analyzeAll (build sources).host
  refine ⟨ds, hds, fun d hd => ?_⟩
  obtain ⟨file, -, tree, htree, e, he, f, hscan, hreport⟩ := hall d hd
  obtain ⟨-, hlocation⟩ := Finding.toDiagnostic?_eq_some hreport
  obtain ⟨hfile, -, -⟩ := syntaxTree_eq_some htree
  obtain rfl : d.location.file = file := by rw [hlocation]
  rw [hfile] at hscan
  exact ⟨e, f, ⟨tree, htree, he⟩, hscan, hreport⟩

/-- At one place only one thing is found to break a rule, even if several declarations break it there. -/
theorem finding_eq_of_place (ha : Reports (build sources).host a e f)
    (hb : Reports (build sources).host b e' f') (hlocation : a.location = b.location)
    (hrule : a.rule = b.rule) : f = f' := by
  obtain ⟨hruleA, hplaceA⟩ := Finding.toDiagnostic?_eq_some ha.reported
  obtain ⟨hruleB, hplaceB⟩ := Finding.toDiagnostic?_eq_some hb.reported
  have hfile : b.location.file = a.location.file := by rw [hlocation]
  have hrules : f.rule = f'.rule := hruleA.symm.trans (hrule.trans hruleB)
  have hspans : f.span = f'.span := by
    have hplace := hplaceA.symm.trans (hlocation.trans hplaceB)
    exact (Location.mk.inj hplace).2
  rcases place_of_scanDeclaration ha.found with
    ⟨base, hbase, x, hx, rfl⟩ | ⟨id, p, l, -, hp, hl, hlfile, -, rfl⟩
  · rcases place_of_scanDeclaration hb.found with
      ⟨base', hbase', x', hx', rfl⟩ | ⟨id', p', l', -, -, -, -, -, rfl⟩
    · obtain ⟨tree, htree, he⟩ := ha.declared
      obtain ⟨tree', htree', he'⟩ := hb.declared
      rw [hfile, htree] at htree'
      obtain rfl := Option.some.inj htree'
      have henclosing := enclosingTypeDecl_of_typeArg htree he hbase hx
      have henclosing' := enclosingTypeDecl_of_typeArg htree he' hbase' hx'
      have hspan : x.span = x'.span := hspans
      rw [hspan, henclosing'] at henclosing
      obtain rfl := Option.some.inj henclosing
      rw [hspan]
    · exact absurd hrules (by simp [Finding.rule])
  · rcases place_of_scanDeclaration hb.found with
      ⟨base', hbase', x', hx', rfl⟩ | ⟨id', p', l', -, hp', hl', hlfile', -, rfl⟩
    · exact absurd hrules (by simp [Finding.rule])
    · obtain ⟨hid, hdeclared, -⟩ := declaredTypeParam_of_mem_locations hp hl
      obtain ⟨hid', hdeclared', -⟩ := declaredTypeParam_of_mem_locations hp' hl'
      have hspan : l.span = l'.span := hspans
      rw [hlfile, hspan] at hdeclared
      rw [hlfile', hfile, hdeclared] at hdeclared'
      obtain rfl := Option.some.inj hdeclared'
      rw [hp] at hp'
      obtain rfl := Option.some.inj hp'
      rw [hspan]

/-- The report of an analysis lists what was found, each once, in whatever order it arrives: the order of
reports leaves nothing open, because diagnostics with the same place and rule are the same. -/
theorem report_analyzeAll (sources : List SourceText) :
    ∃ ds report, analyzeAll (build sources).host false = .ok ds ∧
      (∀ a ∈ ds, ∀ b ∈ ds, a.location = b.location → a.rule = b.rule → a = b) ∧
      report.Nodup ∧ (∀ d, d ∈ report ↔ d ∈ ds) ∧
      ∀ arrived : List Diagnostic, arrived.Perm ds →
        ((DiagnosticQueue.empty .standard).addAll arrived).flush = (report, .empty .standard) := by
  obtain ⟨ds, hds, hreports⟩ := exists_reports sources
  have hplace : ∀ a ∈ ds, ∀ b ∈ ds, a.location = b.location → a.rule = b.rule → a = b := by
    intro a ha b hb hlocation hrule
    obtain ⟨e, f, hea⟩ := hreports a ha
    obtain ⟨e', f', heb⟩ := hreports b hb
    obtain rfl := finding_eq_of_place hea heb hlocation hrule
    have hb' := heb.reported
    rw [← hlocation, hea.reported] at hb'
    exact Option.some.inj hb'
  obtain ⟨hnodup, hmem, hqueue⟩ := DiagnosticQueue.flush_addAll ds
  refine ⟨ds, _, hds, hplace, hnodup, hmem, fun arrived hperm => ?_⟩
  rw [DiagnosticQueue.flush_addAll_of_perm hplace hperm]
  exact Prod.ext rfl hqueue

end Workspace

end SelfTypeLint
