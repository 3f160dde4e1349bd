import Mathlib.Data.List.Induction
import SelfTypeLint.Proofs.Fix.Applies
import SelfTypeLint.Proofs.Fix.Contents

/-!
# Accounts of fixing many diagnostics

Fixing many diagnostics takes them in turn, and each of them meets one `Fate`. The outcome is an account
of these fates: it counts each diagnostic once and holds the edits of the actions applied, in turn and each
edit once. What a diagnostic meets depends on the edits merged before its turn alone, and the same
diagnostic never changes them again (`fixAll_accounts`).
-/

namespace SelfTypeLint.FixAll

open EditSet

/-- What becomes of a diagnostic in its turn. -/
inductive Fate
  /-- No action is chosen for it. -/
  | unoffered
  /-- The edits of its action cannot be computed. -/
  | failed (error : FixError)
  /-- An edit of its action overlaps one merged before. -/
  | refused (file : FileId) (conflict : EditConflict)
  /-- The edits of its action are merged. -/
  | applied (edit : EditSet)

/-- A diagnostic with its fate. -/
abbrev Turn := Diagnostic × Fate

namespace Turn

/-- Holds of a turn in which edits are merged. -/
def isApplied : Turn → Bool
  | (_, .applied _) => true
  | _ => false

/-- Holds of a turn in which no action is chosen. -/
def isUnoffered : Turn → Bool
  | (_, .unoffered) => true
  | _ => false

/-- The report of a turn in which an action is refused. -/
def conflict? : Turn → Option FixConflict
  | (d, .refused file conflict) => some ⟨d, file, conflict⟩
  | _ => none

/-- The report of a turn in which an action fails. -/
def failure? : Turn → Option FixFailure
  | (d, .failed error) => some ⟨d, error⟩
  | _ => none

/-- The edits of a document that a turn brings in. -/
def editsOf (f : FileId) : Turn → List TextEdit
  | (_, .applied edit) => listed f edit.changes
  | _ => []

end Turn

/-- The edits of a document that some turns bring in, one turn after the other, each edit once. -/
def gathered (turns : List Turn) (f : FileId) : List TextEdit := (turns.flatMap (·.editsOf f)).eraseDups

section

variable (registry : FixRegistry) (host : Host) (key : Option String) (cancelled : Bool)

/-- Holds of the fate that a diagnostic meets after the turns before it. -/
inductive Meets (before : List Turn) (d : Diagnostic) : Fate → Prop
  | unoffered (haction : chooseAction registry (.new host d cancelled) key = none) :
    Meets before d .unoffered
  | failed {action : CodeAction} {error : FixError}
    (haction : chooseAction registry (.new host d cancelled) key = some action)
    (happly : registry.apply (.new host d cancelled) action = .error error) :
    Meets before d (.failed error)
  | refused {action : CodeAction} {edit : EditSet} {file : FileId} {conflict : EditConflict}
    (haction : chooseAction registry (.new host d cancelled) key = some action)
    (happly : registry.apply (.new host d cancelled) action = .ok edit)
    (h : Overlap (gathered before) edit file conflict) :
    Meets before d (.refused file conflict)
  | applied {action : CodeAction} {edit : EditSet}
    (haction : chooseAction registry (.new host d cancelled) key = some action)
    (happly : registry.apply (.new host d cancelled) action = .ok edit)
    (h : ¬ Clashes (gathered before) edit) :
    Meets before d (.applied edit)

/-- Holds of turns in each of which the diagnostic meets its fate. -/
inductive Run : List Turn → Prop
  | start : Run []
  | turn {before : List Turn} {d : Diagnostic} {fate : Fate} (h : Run before)
    (hmeets : Meets registry host key cancelled before d fate) : Run (before ++ [(d, fate)])

/-- Holds of turns that an outcome is the account of. -/
structure Accounts (diagnostics : List Diagnostic) (turns : List Turn) (o : FixAllOutcome) :
    Prop where
  run : Run registry host key cancelled turns
  diagnostics : turns.map (·.1) = diagnostics
  applied : o.applied = turns.countP Turn.isApplied
  notOffered : o.notOffered = turns.countP Turn.isUnoffered
  conflicts : o.conflicts = turns.filterMap Turn.conflict?
  failures : o.failures = turns.filterMap Turn.failure?
  edits : ∀ f, o.edit.editsFor f = gathered turns f

end

theorem gathered_concat (turns : List Turn) (t : Turn) (f : FileId) :
    gathered (turns ++ [t]) f = (t.editsOf f).foldl addNew (gathered turns f) := by
  simp only [gathered, ← foldl_addNew_nil, List.flatMap_append, List.foldl_append,
    List.flatMap_singleton]

/-- Each turn counts once. -/
theorem count_turns (turns : List Turn) :
    turns.countP Turn.isApplied + turns.countP Turn.isUnoffered +
      (turns.filterMap Turn.conflict?).length + (turns.filterMap Turn.failure?).length =
        turns.length := by
  induction turns with
  | nil => rfl
  | cons t turns ih =>
    obtain ⟨d, fate⟩ := t
    cases fate <;>
      simp only [List.countP_cons, List.filterMap_cons, Turn.isApplied, Turn.isUnoffered,
        Turn.conflict?, Turn.failure?, List.length_cons, if_true, Bool.false_eq_true, if_false] <;>
      omega

section

variable {registry : FixRegistry} {host : Host} {key : Option String} {cancelled : Bool}
  {diagnostics : List Diagnostic} {turns : List Turn} {o o' p : FixAllOutcome} {d : Diagnostic}

/-- An action whose edits are computed is refused just if they clash with those merged before. -/
theorem Meets.refused_iff {fate : Fate} (h : Meets registry host key cancelled turns d fate)
    {action : CodeAction} {edit : EditSet}
    (haction : chooseAction registry (.new host d cancelled) key = some action)
    (happly : registry.apply (.new host d cancelled) action = .ok edit) :
    (∃ file conflict, fate = .refused file conflict) ↔ Clashes (gathered turns) edit := by
  cases h with
  | unoffered haction' => exact absurd (haction'.symm.trans haction) (by simp)
  | failed haction' happly' =>
    obtain rfl := Option.some.inj (haction'.symm.trans haction)
    exact absurd (happly'.symm.trans happly) (by simp)
  | refused haction' happly' hoverlap =>
    obtain rfl := Option.some.inj (haction'.symm.trans haction)
    obtain rfl := Except.ok.inj (happly'.symm.trans happly)
    exact iff_of_true ⟨_, _, rfl⟩ hoverlap.clashes
  | applied haction' happly' hclashes =>
    obtain rfl := Option.some.inj (haction'.symm.trans haction)
    obtain rfl := Except.ok.inj (happly'.symm.trans happly)
    exact iff_of_false (by simp) hclashes

/-- Every diagnostic of a run meets its fate after the turns before it. -/
theorem Run.meets (h : Run registry host key cancelled turns) {before after : List Turn}
    {fate : Fate} (hturns : turns = before ++ (d, fate) :: after) :
    Meets registry host key cancelled before d fate := by
  induction h generalizing after with
  | start => exact absurd hturns (by simp)
  | @turn before' d' fate' _ hmeets ih =>
    rcases List.eq_nil_or_concat after with rfl | ⟨after', t, rfl⟩
    · obtain ⟨rfl, hlast⟩ := List.append_inj' hturns rfl
      obtain ⟨rfl, rfl⟩ := Prod.mk.inj (List.singleton_inj.1 hlast)
      exact hmeets
    · rw [List.concat_eq_append, ← List.cons_append, ← List.append_assoc] at hturns
      obtain ⟨hsame, -⟩ := List.append_inj' hturns rfl
      exact ih hsame

/-! ## One turn -/

/-- Fixing one more diagnostic is fixing the others and then it. -/
theorem exists_of_fixAll_concat (h : fixAll registry host (diagnostics ++ [d]) key cancelled = .ok o) :
    ∃ mid, fixAll registry host diagnostics key cancelled = .ok mid ∧
      step registry host key cancelled mid d = .ok o := by
  rw [fixAll, List.foldlM_append] at h
  obtain ⟨mid, hmid, h⟩ := exists_of_bind_eq_ok h
  obtain ⟨o', hstep, h⟩ := exists_of_bind_eq_ok h
  exact ⟨mid, hmid, hstep.trans h⟩

theorem ordered_of_step (h : o.edit.Ordered)
    (hstep : step registry host key cancelled o d = .ok o') : o'.edit.Ordered := by
  rcases (stepped_of_step hstep).edit_cases with hsame | ⟨action, edit, -, -, hmerge⟩
  · rwa [hsame]
  · exact (editsFor_merge h hmerge).1

/-- One more turn is accounted for by what it adds. -/
theorem Accounts.concat (h : Accounts registry host key cancelled diagnostics turns o) {t : Turn}
    (hmeets : Meets registry host key cancelled turns t.1 t.2)
    (happlied : o'.applied = o.applied + if t.isApplied then 1 else 0)
    (hnotOffered : o'.notOffered = o.notOffered + if t.isUnoffered then 1 else 0)
    (hconflicts : o'.conflicts = o.conflicts ++ t.conflict?.toList)
    (hfailures : o'.failures = o.failures ++ t.failure?.toList)
    (hedits : ∀ f, o'.edit.editsFor f = (t.editsOf f).foldl addNew (o.edit.editsFor f)) :
    Accounts registry host key cancelled (diagnostics ++ [t.1]) (turns ++ [t]) o' where
  run := h.run.turn hmeets
  diagnostics := by rw [List.map_append, h.diagnostics, List.map_singleton]
  applied := by rw [happlied, h.applied, List.countP_append, List.countP_singleton]
  notOffered := by rw [hnotOffered, h.notOffered, List.countP_append, List.countP_singleton]
  conflicts := by
    rw [hconflicts, h.conflicts, List.filterMap_append]
    cases ht : t.conflict? <;> simp [ht]
  failures := by
    rw [hfailures, h.failures, List.filterMap_append]
    cases ht : t.failure? <;> simp [ht]
  edits f := by rw [hedits, h.edits, gathered_concat]

/-- One more diagnostic meets a fate, and the outcome accounts for it. -/
theorem Accounts.step (h : Accounts registry host key cancelled diagnostics turns o)
    (hordered : o.edit.Ordered) (hstep : step registry host key cancelled o d = .ok o') :
    ∃ fate, Accounts registry host key cancelled (diagnostics ++ [d]) (turns ++ [(d, fate)]) o' := by
  have hmerged : o.edit.editsFor = gathered turns := funext h.edits
  have hnil {α : Type} (as : List α) : as = as ++ [] := (List.append_nil as).symm
  cases stepped_of_step hstep with
  | notOffered haction =>
    exact ⟨_, h.concat (t := (d, .unoffered)) (.unoffered haction) rfl rfl (hnil _) (hnil _)
      fun _ => rfl⟩
  | @failed action error haction happly _ =>
    exact ⟨_, h.concat (t := (d, .failed error)) (.failed haction happly) rfl rfl (hnil _) rfl
      fun _ => rfl⟩
  | @conflicting action edit file conflict haction happly hmerge =>
    have hoverlap := hmerged ▸ overlap_of_merge hmerge
    exact ⟨_, h.concat (t := (d, .refused file conflict)) (.refused haction happly hoverlap) rfl rfl
      rfl (hnil _) fun _ => rfl⟩
  | @merged action edit s haction happly hmerge =>
    have hclashes := hmerged ▸ not_clashes_of_merge hmerge
    exact ⟨_, h.concat (t := (d, .applied edit)) (.applied haction happly hclashes) rfl rfl
      (hnil _) (hnil _) (editsFor_merge hordered hmerge).2⟩

/-- An outcome is the account of the turns of its diagnostics. -/
theorem exists_accounts (h : fixAll registry host diagnostics key cancelled = .ok o) :
    o.edit.Ordered ∧ ∃ turns, Accounts registry host key cancelled diagnostics turns o := by
  induction diagnostics using List.reverseRecOn generalizing o with
  | nil =>
    obtain rfl : start = o := Except.ok.inj h
    exact ⟨ordered_empty, [], .start, rfl, rfl, rfl, rfl, rfl, fun _ => rfl⟩
  | append_singleton ds d ih =>
    obtain ⟨mid, hmid, hstep⟩ := exists_of_fixAll_concat h
    obtain ⟨hordered, turns, haccounts⟩ := ih hmid
    obtain ⟨fate, hfate⟩ := haccounts.step hordered hstep
    exact ⟨ordered_of_step hordered hstep, _, hfate⟩

/-! ## The same diagnostic again -/

/-- Holds of a diagnostic whose action had its turn. -/
def Known (registry : FixRegistry) (host : Host) (key : Option String) (cancelled : Bool)
    (merged : EditSet) (d : Diagnostic) : Prop :=
  ∀ action edit, chooseAction registry (.new host d cancelled) key = some action →
    registry.apply (.new host d cancelled) action = .ok edit → Settled merged edit

/-- A diagnostic is known after its turn. -/
theorem known_of_step (h : o.edit.Ordered)
    (hstep : step registry host key cancelled o d = .ok o') :
    Known registry host key cancelled o'.edit d := by
  intro action edit haction happly
  cases stepped_of_step hstep with
  | notOffered hnone => exact absurd (hnone.symm.trans haction) (by simp)
  | failed haction' happly' _ =>
    obtain rfl := Option.some.inj (haction'.symm.trans haction)
    exact absurd (happly'.symm.trans happly) (by simp)
  | conflicting haction' happly' hmerge =>
    obtain rfl := Option.some.inj (haction'.symm.trans haction)
    obtain rfl := Except.ok.inj (happly'.symm.trans happly)
    exact .inr (overlap_of_merge hmerge).clashes
  | merged haction' happly' hmerge =>
    obtain rfl := Option.some.inj (haction'.symm.trans haction)
    obtain rfl := Except.ok.inj (happly'.symm.trans happly)
    exact settled_of_merge h hmerge

/-- A diagnostic stays known when others have their turn. -/
theorem Known.step {e : Diagnostic} (h : Known registry host key cancelled o.edit d)
    (hordered : o.edit.Ordered) (hstep : step registry host key cancelled o e = .ok o') :
    Known registry host key cancelled o'.edit d := by
  intro action edit haction happly
  have hsettled := h action edit haction happly
  rcases (stepped_of_step hstep).edit_cases with hsame | ⟨-, edit', -, -, hmerge⟩
  · rwa [hsame]
  · exact hsettled.merge hordered hmerge

/-- Another turn of a diagnostic that is known leaves the merged edits as they are. -/
theorem Known.edit_eq (h : Known registry host key cancelled o.edit d)
    (hstep : FixAll.step registry host key cancelled o d = .ok o') : o'.edit = o.edit := by
  rcases (stepped_of_step hstep).edit_cases with hsame | ⟨action, edit, haction, happly, hmerge⟩
  · exact hsame
  · exact (h action edit haction happly).eq_of_merge hmerge

/-- After some diagnostics each of them is known. -/
theorem known_of_mem (h : fixAll registry host diagnostics key cancelled = .ok o)
    (hd : d ∈ diagnostics) : Known registry host key cancelled o.edit d := by
  induction diagnostics using List.reverseRecOn generalizing o with
  | nil => exact absurd hd List.not_mem_nil
  | append_singleton ds e ih =>
    obtain ⟨mid, hmid, hstep⟩ := exists_of_fixAll_concat h
    obtain ⟨hordered, -⟩ := exists_accounts hmid
    rcases List.mem_append.1 hd with hd | hd
    · exact (ih hmid hd).step hordered hstep
    · obtain rfl := List.mem_singleton.1 hd
      exact known_of_step hordered hstep

/-- What a turn does to the merged edits depends on these alone. -/
theorem exists_step_of_edit_eq (hstep : step registry host key cancelled o d = .ok o')
    (hp : p.edit = o.edit) :
    ∃ p', step registry host key cancelled p d = .ok p' ∧ p'.edit = o'.edit := by
  have hcheck : checkCancelled cancelled = .ok () := by
    rw [step] at hstep
    obtain ⟨_, hcheck, -⟩ := exists_of_bind_eq_ok hstep
    exact hcheck
  cases stepped_of_step hstep with
  | notOffered haction => exact ⟨_, (Stepped.notOffered haction).step_eq hcheck, hp⟩
  | failed haction happly hcancelled =>
    exact ⟨_, (Stepped.failed haction happly hcancelled).step_eq hcheck, hp⟩
  | conflicting haction happly hmerge =>
    exact ⟨_, (Stepped.conflicting haction happly (hp ▸ hmerge)).step_eq hcheck, hp⟩
  | merged haction happly hmerge =>
    exact ⟨_, (Stepped.merged haction happly (hp ▸ hmerge)).step_eq hcheck, rfl⟩

theorem exists_foldlM_of_edit_eq {ds : List Diagnostic}
    (h : ds.foldlM (step registry host key cancelled) o = .ok o') (hp : p.edit = o.edit) :
    ∃ p', ds.foldlM (step registry host key cancelled) p = .ok p' ∧ p'.edit = o'.edit := by
  induction ds generalizing o p with
  | nil => exact ⟨p, rfl, hp.trans (congrArg _ (Except.ok.inj h))⟩
  | cons d ds ih =>
    rw [List.foldlM_cons] at h
    obtain ⟨mid, hmid, hrest⟩ := exists_of_bind_eq_ok h
    obtain ⟨q, hq, hedit⟩ := exists_step_of_edit_eq hmid hp
    obtain ⟨p', hp', hedit'⟩ := ih hrest hedit
    exact ⟨p', by rw [List.foldlM_cons, hq]; exact hp', hedit'⟩

/-- Fixing many diagnostics counts each of them once. The outcome accounts for what they meet in turn: the
merged edits are those of the actions applied, each once, and an action whose edits are computed is
refused just if one of them is new and overlaps an edit merged before. A diagnostic that comes again
changes nothing in the merged edits. -/
theorem fixAll_accounts (h : fixAll registry host diagnostics key cancelled = .ok o) :
    o.applied + o.notOffered + o.conflicts.length + o.failures.length = diagnostics.length ∧
      (∃ turns, Accounts registry host key cancelled diagnostics turns o ∧
        ∀ before d fate after, turns = before ++ (d, fate) :: after → ∀ action edit,
          chooseAction registry (.new host d cancelled) key = some action →
          registry.apply (.new host d cancelled) action = .ok edit →
          ((∃ file conflict, fate = .refused file conflict) ↔ Clashes (gathered before) edit)) ∧
      ∀ before d after, diagnostics = before ++ d :: after → d ∈ before → ∃ o',
        fixAll registry host (before ++ after) key cancelled = .ok o' ∧ o'.edit = o.edit := by
  obtain ⟨-, turns, haccounts⟩ := exists_accounts h
  refine ⟨?_, ⟨turns, haccounts, ?_⟩, ?_⟩
  · rw [haccounts.applied, haccounts.notOffered, haccounts.conflicts, haccounts.failures,
      count_turns, ← haccounts.diagnostics, List.length_map]
  · intro before d fate after hturns action edit haction happly
    exact (haccounts.run.meets hturns).refused_iff haction happly
  · rintro before d after rfl hd
    rw [fixAll, List.foldlM_append] at h
    obtain ⟨first, hfirst, h⟩ := exists_of_bind_eq_ok h
    rw [List.foldlM_cons] at h
    obtain ⟨again, hagain, h⟩ := exists_of_bind_eq_ok h
    have hedit := (known_of_mem hfirst hd).edit_eq hagain
    obtain ⟨o', ho', hsame⟩ := exists_foldlM_of_edit_eq h hedit.symm
    exact ⟨o', by rw [fixAll, List.foldlM_append, hfirst]; exact ho', hsame⟩

end

/-- A fix that puts a using directive at the start of the text and a letter in the place of what is
reported, unless this is empty or stands at the start. -/
def replaceFix : CodeFix where
  key := "replace"
  rules := [.selfArgument]
  offer ctx := if ctx.span.isEmpty then [] else [⟨"Replace", "replace", ctx.diagnostic⟩]
  compute ctx _ :=
    if ctx.span.start = 0 then .error .argumentNotFound
    else .ok (.ofEdits ctx.file [.insertAt 0 "using S;\n", ⟨ctx.span, "X"⟩])

/-- A diagnostic of the first document. -/
def reportedAt (start stop : Nat) : Diagnostic := .new .selfArgument ⟨0, ⟨start, stop⟩⟩ []

/-- The second of these diagnostics overlaps the first, and the fourth is the first again. -/
theorem fixAll_accounts_again :
    let host := (Workspace.build []).host
    let diagnostics := [reportedAt 10 15, reportedAt 12 18, reportedAt 20 25, reportedAt 10 15,
      reportedAt 0 3, reportedAt 30 30]
    ∃ o, fixAll ⟨[replaceFix]⟩ host diagnostics none false = .ok o ∧
      o.applied = 3 ∧ o.notOffered = 1 ∧ o.conflicts.length = 1 ∧ o.failures.length = 1 ∧
      (∃ turns, Accounts ⟨[replaceFix]⟩ host none false diagnostics turns o ∧ gathered turns 0 =
        [.insertAt 0 "using S;\n", ⟨⟨10, 15⟩, "X"⟩, ⟨⟨20, 25⟩, "X"⟩]) ∧
      ∃ o', fixAll ⟨[replaceFix]⟩ host [reportedAt 10 15, reportedAt 12 18, reportedAt 20 25,
        reportedAt 0 3, reportedAt 30 30] none false = .ok o' ∧ o'.edit = o.edit := by
  intro host diagnostics
  have hfixed : fixAll ⟨[replaceFix]⟩ host diagnostics none false = .ok
      { edit := ⟨[(0, [.insertAt 0 "using S;\n", ⟨⟨10, 15⟩, "X"⟩, ⟨⟨20, 25⟩, "X"⟩])]⟩
        applied := 3
        notOffered := 1
        conflicts := [⟨reportedAt 12 18, 0, ⟨⟨⟨10, 15⟩, "X"⟩, ⟨⟨12, 18⟩, "X"⟩⟩⟩]
        failures := [⟨reportedAt 0 3, .argumentNotFound⟩] } := by decide +kernel
  obtain ⟨-, ⟨turns, haccounts, -⟩, hagain⟩ := fixAll_accounts hfixed
  refine ⟨_, hfixed, rfl, rfl, rfl, rfl, ⟨turns, haccounts, (haccounts.edits 0).symm⟩, ?_⟩
  exact hagain [reportedAt 10 15, reportedAt 12 18, reportedAt 20 25] (reportedAt 10 15) _ rfl
    List.mem_cons_self

end SelfTypeLint.FixAll
