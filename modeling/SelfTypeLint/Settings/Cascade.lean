import SelfTypeLint.Settings.EditorConfig

/-!
# Settings of a file

The options of a file come from the settings files of the directories above it, up to the first that
declares itself the root. Nearer settings files win over farther ones. Settings files are read once
and kept, those that do not exist included; a directory whose settings file cannot be read is tried
again.
-/

namespace SelfTypeLint

/-- A directory, by its components. -/
abbrev Directory := List Path.Component

/-- A settings file with its directory. -/
abbrev PlacedConfig := Directory × EditorConfig

/-- Reads the settings file of a directory, if there is one. -/
abbrev ConfigReader (ε : Type) := Directory → Except ε (Option String)

/-- The settings files read so far; none is kept for a directory that has none. -/
structure ConfigCache where
  entries : List (Directory × Option EditorConfig)
  deriving Repr

namespace ConfigCache

variable {ε : Type}

/-- The cache before anything is read. -/
def empty : ConfigCache := ⟨[]⟩

/-- The settings file of a directory. -/
def load (read : ConfigReader ε) (cache : ConfigCache) (dir : Directory) :
    Except ε (Option EditorConfig) × ConfigCache :=
  match cache.entries.lookup dir with
  | some config => (.ok config, cache)
  | none =>
    match read dir with
    | .error e => (.error e, cache)
    | .ok text =>
      let config := text.map .ofText
      (.ok config, ⟨(dir, config) :: cache.entries⟩)

/-- The settings files of some directories up to the first that declares itself the root, in order;
or the first directory whose settings file cannot be read. -/
def gather (read : ConfigReader ε) (cache : ConfigCache) :
    List Directory → Except (Directory × ε) (List PlacedConfig) × ConfigCache
  | [] => (.ok [], cache)
  | dir :: dirs =>
    match cache.load read dir with
    | (.error e, cache) => (.error (dir, e), cache)
    | (.ok none, cache) => gather read cache dirs
    | (.ok (some config), cache) =>
      if config.isRoot then (.ok [(dir, config)], cache)
      else
        let (rest, cache) := gather read cache dirs
        (rest.map ((dir, config) :: ·), cache)

/-- What settings files, the nearest first, make the options of a file. -/
def resolve (file : List Path.Component) (configs : List PlacedConfig) : Options :=
  configs.foldr (fun (dir, config) options =>
    config.apply (Path.names (file.drop dir.length)) options) .empty

/-- The options of a file. -/
def optionsFor (read : ConfigReader ε) (cache : ConfigCache) (file : List Path.Component) :
    Except (Directory × ε) Options × ConfigCache :=
  let (configs, cache) := cache.gather read (Path.ancestors file)
  (configs.map (resolve file), cache)

/-- A settings file that was read is found in the cache. -/
theorem load_load {read : ConfigReader ε} {cache next : ConfigCache} {dir : Directory}
    {config : Option EditorConfig} (h : cache.load read dir = (.ok config, next)) :
    next.load read dir = (.ok config, next) := by
  unfold load at h
  split at h
  · next hl =>
    obtain ⟨he, rfl⟩ := Prod.mk.inj h
    obtain rfl := Except.ok.inj he
    simp [load, hl]
  · split at h
    · simp at h
    · obtain ⟨he, rfl⟩ := Prod.mk.inj h
      obtain rfl := Except.ok.inj he
      simp [load]

end ConfigCache

end SelfTypeLint
