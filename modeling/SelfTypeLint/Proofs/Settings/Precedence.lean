import SelfTypeLint.Proofs.Settings.Given
import SelfTypeLint.Settings.Cascade

/-!
# Precedence of settings files

Of the settings files above a path the nearest that gives a key a value decides, unless a nearer one
declares itself the root. The settings files that earlier requests left in a cache are those that would be
read again, so a cache never shows in an answer (`optionsFor_iff_prevails`).
-/

namespace SelfTypeLint

namespace Path

/-- Holds of the directories above a path. Nothing is above the root. -/
def Above (dir path : List Component) : Prop :=
  ∃ below, below ≠ [] ∧ path = dir ++ below ∧ below.head? ≠ some .root

theorem mem_ancestors_iff {dir path : List Component} : dir ∈ ancestors path ↔ Above dir path := by
  induction path generalizing dir with
  | nil => simp [ancestors, Above]
  | cons c path ih =>
    rw [ancestors, List.mem_append, List.mem_map]
    constructor
    · rintro (⟨above, habove, rfl⟩ | hempty)
      · obtain ⟨below, hne, rfl, hroot⟩ := ih.1 habove
        exact ⟨below, hne, rfl, hroot⟩
      · by_cases hc : c = .root
        · simp [hc] at hempty
        · rw [if_neg hc, List.mem_singleton] at hempty
          exact ⟨c :: path, by simp, by rw [hempty]; rfl, by simpa using hc⟩
    · rintro ⟨below, hne, hpath, hroot⟩
      cases dir with
      | nil =>
        rw [List.nil_append] at hpath
        subst hpath
        have hc : c ≠ .root := by simpa using hroot
        right
        rw [if_neg hc]
        exact List.mem_singleton_self _
      | cons d dir =>
        obtain ⟨rfl, rfl⟩ := List.cons.inj hpath
        exact .inl ⟨dir, ih.2 ⟨below, hne, rfl, hroot⟩, rfl⟩

/-- The directories above a path are listed from the nearest on. -/
theorem pairwise_ancestors (path : List Component) :
    (ancestors path).Pairwise fun near far => far.length < near.length := by
  induction path with
  | nil => exact List.Pairwise.nil
  | cons c path ih =>
    rw [ancestors, List.pairwise_append, List.pairwise_map]
    refine ⟨by simpa using ih, ?_, ?_⟩
    · split <;> simp
    · intro near hnear far hfar
      obtain ⟨near, -, rfl⟩ := List.mem_map.1 hnear
      split at hfar
      · exact absurd hfar List.not_mem_nil
      · rw [List.mem_singleton.1 hfar]
        exact Nat.succ_pos _

end Path

/-- The settings files on a disk: the text in each directory that has one. -/
abbrev ConfigTexts := Directory → Option String

namespace ConfigTexts

variable {texts : ConfigTexts} {path : List Path.Component} {dir : Directory}
  {dirs : List Directory} {key value : String}

/-- Holds of the value that the settings file of a directory gives to a key for a path below. -/
def Gives (texts : ConfigTexts) (path : List Path.Component) (dir : Directory) (key value : String) :
    Prop :=
  ∃ below text, path = dir ++ below ∧ texts dir = some text ∧
    EditorConfig.Gives (EditorConfig.Entry.ofText text) (Path.names below) key value

/-- Holds of the directories whose settings file declares itself the root. -/
def IsRoot (texts : ConfigTexts) (dir : Directory) : Prop :=
  ∃ text, texts dir = some text ∧ EditorConfig.SaysRoot (EditorConfig.Entry.ofText text)

/-- Holds of the value that a key has for a path: the one given in the nearest directory above the path
that gives one, if no directory nearer than that is a root. -/
def Prevails (texts : ConfigTexts) (path : List Path.Component) (key value : String) : Prop :=
  ∃ dir, Path.Above dir path ∧ texts.Gives path dir key value ∧
    ∀ near, Path.Above near path → dir.length < near.length →
      ¬ texts.IsRoot near ∧ ∀ x, ¬ texts.Gives path near key x

/-- Holds of the value that a key has from some of the directories above a path. -/
def PrevailsIn (texts : ConfigTexts) (path : List Path.Component) (dirs : List Directory)
    (key value : String) : Prop :=
  ∃ dir ∈ dirs, texts.Gives path dir key value ∧
    ∀ near ∈ dirs, dir.length < near.length →
      ¬ texts.IsRoot near ∧ ∀ x, ¬ texts.Gives path near key x

theorem prevailsIn_ancestors :
    texts.PrevailsIn path (Path.ancestors path) key value ↔ texts.Prevails path key value := by
  simp only [PrevailsIn, Prevails, Path.mem_ancestors_iff]

/-- The nearest directory decides, or leaves it to those above if it is no root. -/
theorem prevailsIn_cons (hfar : ∀ far ∈ dirs, far.length < dir.length) :
    texts.PrevailsIn path (dir :: dirs) key value ↔ texts.Gives path dir key value ∨
      (∀ x, ¬ texts.Gives path dir key x) ∧ ¬ texts.IsRoot dir ∧
        texts.PrevailsIn path dirs key value := by
  constructor
  · rintro ⟨from', hmem, hgives, hnear⟩
    rcases List.mem_cons.1 hmem with rfl | hmem
    · exact .inl hgives
    · obtain ⟨hroot, hnone⟩ := hnear dir List.mem_cons_self (hfar from' hmem)
      exact .inr ⟨hnone, hroot, from', hmem, hgives, fun near h =>
        hnear near (List.mem_cons_of_mem _ h)⟩
  · rintro (hgives | ⟨hnone, hroot, from', hmem, hgives, hnear⟩)
    · refine ⟨dir, List.mem_cons_self, hgives, fun near hmem hlt => ?_⟩
      rcases List.mem_cons.1 hmem with rfl | hmem
      · omega
      · have := hfar near hmem
        omega
    · refine ⟨from', List.mem_cons_of_mem _ hmem, hgives, fun near h hlt => ?_⟩
      rcases List.mem_cons.1 h with rfl | h
      · exact ⟨hroot, hnone⟩
      · exact hnear near h hlt

/-- The settings files in some directories up to the first that is a root. -/
def searched (texts : ConfigTexts) : List Directory → List PlacedConfig
  | [] => []
  | dir :: dirs =>
    match texts dir with
    | none => searched texts dirs
    | some text =>
      let config := EditorConfig.ofText text
      (dir, config) :: if config.isRoot then [] else searched texts dirs

theorem resolve_cons (dir : Directory) (below : List Path.Component) (config : EditorConfig)
    (configs : List PlacedConfig) :
    ConfigCache.resolve (dir ++ below) ((dir, config) :: configs) =
      config.apply (Path.names below) (ConfigCache.resolve (dir ++ below) configs) := by
  simp [ConfigCache.resolve]

/-- The options of a path have the values that prevail. -/
theorem lookup_resolve_searched (habove : ∀ dir ∈ dirs, Path.Above dir path)
    (hnear : dirs.Pairwise fun near far => far.length < near.length) (key value : String) :
    (ConfigCache.resolve path (texts.searched dirs)).lookup key = some value ↔
      texts.PrevailsIn path dirs key value := by
  induction dirs with
  | nil => simp [searched, ConfigCache.resolve, PrevailsIn]
  | cons dir dirs ih =>
    obtain ⟨hfar, hrest⟩ := List.pairwise_cons.1 hnear
    have ih := ih (fun far h => habove far (List.mem_cons_of_mem _ h)) hrest
    rw [prevailsIn_cons hfar, searched]
    cases htext : texts dir with
    | none => simp [ih, Gives, IsRoot, htext]
    | some text =>
      obtain ⟨below, -, rfl, -⟩ := habove dir List.mem_cons_self
      have hgives : ∀ x, texts.Gives (dir ++ below) dir key x ↔
          EditorConfig.Gives (EditorConfig.Entry.ofText text) (Path.names below) key x := by
        intro x
        simp [Gives, htext]
      have hroot : texts.IsRoot dir ↔ (EditorConfig.ofText text).isRoot = true := by
        simp [IsRoot, htext, EditorConfig.isRoot_ofText]
      simp only [hgives, hroot]
      rw [resolve_cons, EditorConfig.ofText, EditorConfig.lookup_apply_ofEntries]
      by_cases hisRoot : (EditorConfig.ofText text).isRoot = true
      · rw [EditorConfig.ofText] at hisRoot
        simp [hisRoot, ConfigCache.resolve]
      · rw [EditorConfig.ofText] at hisRoot
        simp [hisRoot, ih]

end ConfigTexts

namespace ConfigCache

variable (ε : Type) {texts : ConfigTexts} {cache : ConfigCache}

/-- Reads the settings files on a disk. -/
def reader (ε : Type) (texts : ConfigTexts) : ConfigReader ε := fun dir => .ok (texts dir)

/-- Holds of a cache whose settings files are those on the disk. -/
def Agrees (texts : ConfigTexts) (cache : ConfigCache) : Prop :=
  ∀ dir config, cache.entries.lookup dir = some config → config = (texts dir).map .ofText

theorem agrees_empty (texts : ConfigTexts) : Agrees texts empty := by
  intro dir config h
  exact absurd h (by simp [empty])

/-- A settings file is the one on the disk, whether it was read before or not. -/
theorem Agrees.load (h : cache.Agrees texts) (dir : Directory) :
    ∃ next, cache.load (reader ε texts) dir = (.ok ((texts dir).map .ofText), next) ∧
      next.Agrees texts := by
  cases hlookup : cache.entries.lookup dir with
  | some config =>
    refine ⟨cache, ?_, h⟩
    simp only [ConfigCache.load, hlookup, h dir config hlookup]
  | none =>
    refine ⟨⟨(dir, (texts dir).map .ofText) :: cache.entries⟩, ?_, ?_⟩
    · simp only [ConfigCache.load, hlookup, reader]
    · intro other config hother
      rw [List.lookup_cons] at hother
      split at hother
      · next heq =>
        rw [eq_of_beq heq]
        exact (Option.some.inj hother).symm
      · exact h other config hother

/-- The settings files that are gathered do not depend on the cache. -/
theorem Agrees.gather (h : cache.Agrees texts) (dirs : List Directory) :
    ∃ next, cache.gather (reader ε texts) dirs = (.ok (texts.searched dirs), next) ∧
      next.Agrees texts := by
  induction dirs generalizing cache with
  | nil => exact ⟨cache, rfl, h⟩
  | cons dir dirs ih =>
    obtain ⟨loaded, hload, hloaded⟩ := h.load ε dir
    obtain ⟨next, hnext, hagrees⟩ := ih hloaded
    cases htext : texts dir with
    | none =>
      refine ⟨next, ?_, hagrees⟩
      simp only [ConfigCache.gather, hload, htext, Option.map_none, hnext, ConfigTexts.searched]
    | some text =>
      by_cases hroot : (EditorConfig.ofText text).isRoot = true
      · refine ⟨loaded, ?_, hloaded⟩
        simp [ConfigCache.gather, hload, htext, ConfigTexts.searched, hroot]
      · refine ⟨next, ?_, hagrees⟩
        simp [ConfigCache.gather, hload, htext, ConfigTexts.searched, hroot, hnext, Except.map]

/-- The options of a path do not depend on the cache. -/
theorem Agrees.optionsFor (h : cache.Agrees texts) (path : List Path.Component) :
    ∃ next, cache.optionsFor (reader ε texts) path =
        (.ok (resolve path (texts.searched (Path.ancestors path))), next) ∧ next.Agrees texts := by
  obtain ⟨next, hnext, hagrees⟩ := h.gather ε (Path.ancestors path)
  refine ⟨next, ?_, hagrees⟩
  simp [ConfigCache.optionsFor, hnext, Except.map]

/-- The cache that requests for the options of some paths leave. -/
def visit {ε : Type} (read : ConfigReader ε) (cache : ConfigCache) (paths : List (List Path.Component)) :
    ConfigCache :=
  paths.foldl (fun cache path => (cache.optionsFor read path).2) cache

/-- Requests keep the settings files of a cache those on the disk. -/
theorem Agrees.visit (h : cache.Agrees texts) (paths : List (List Path.Component)) :
    (cache.visit (reader ε texts) paths).Agrees texts := by
  induction paths generalizing cache with
  | nil => exact h
  | cons path paths ih =>
    obtain ⟨next, hnext, hagrees⟩ := h.optionsFor ε path
    have := ih hagrees
    rw [ConfigCache.visit, List.foldl_cons, hnext]
    exact this

/-- After any requests the options of a path are those that a new cache gives, and they have the values
that prevail in the settings files above the path. -/
theorem optionsFor_iff_prevails (texts : ConfigTexts) (earlier : List (List Path.Component))
    (path : List Path.Component) :
    ∃ options, ((empty.visit (reader ε texts) earlier).optionsFor (reader ε texts) path).1 =
        .ok options ∧
      (empty.optionsFor (reader ε texts) path).1 = .ok options ∧
      ∀ key value, options.lookup key = some value ↔ texts.Prevails path key value := by
  have hempty := agrees_empty texts
  obtain ⟨_, hvisited, -⟩ := (hempty.visit ε earlier).optionsFor ε path
  obtain ⟨_, hnew, -⟩ := hempty.optionsFor ε path
  refine ⟨_, congrArg Prod.fst hvisited, congrArg Prod.fst hnew, fun key value => ?_⟩
  rw [ConfigTexts.lookup_resolve_searched (fun dir h => Path.mem_ancestors_iff.1 h)
    (Path.pairwise_ancestors path), ConfigTexts.prevailsIn_ancestors]

end ConfigCache

end SelfTypeLint
