import SelfTypeLint.Symbol.Table

/-!
# Parts of types

A symbol table is filled part by part: each declaration is a part of one type. `Records t parts` says
that the table `t` is what the list of parts makes of it, so that numbers, keys, owners and places
agree with each other. Declaring a further part keeps this, with the part at the end of the list.
-/

namespace SelfTypeLint

/-- What identifies the type of a symbol. -/
def TypeSymbol.key (s : TypeSymbol) : TypeKey where
  container := match s.containingType with
    | some outer => .type outer
    | none => .space s.space
  name := s.name
  arity := s.typeParams.length

/-- A type declaration where it stands. -/
structure Standing where
  file : FileId
  container : Container
  decl : TypeDecl

/-- One declaring part of a type. -/
structure Part extends Standing where
  /-- The type that the declaration is a part of. -/
  type : TypeId

namespace Part

/-- What identifies the type of a part. -/
def key (p : Part) : TypeKey := ⟨p.container, p.decl.name, p.decl.arity⟩

/-- The place of the name. -/
def place (p : Part) : Location := ⟨p.file, p.decl.nameSpan⟩

/-- The place of the name of a type parameter. -/
def paramPlace? (p : Part) (ordinal : Nat) : Option Location :=
  (p.decl.typeParams[ordinal]?).map fun q => ⟨p.file, q.nameSpan⟩

end Part

namespace SymbolTable

/-- Holds of the table that some parts make. -/
structure Records (t : SymbolTable) (parts : List Part) : Prop where
  typeId : ∀ (i : TypeId) (s : TypeSymbol), t.types[i]? = some s → s.id = i
  fullName : ∀ (i : TypeId) (s : TypeSymbol), t.types[i]? = some s →
    s.fullName = s.qualifiedName (s.containingType.bind t.fullName?)
  outer : ∀ (i : TypeId) (s : TypeSymbol) (o : TypeId), t.types[i]? = some s →
    s.containingType = some o → o < i
  param : ∀ (j : TypeParamId) (p : TypeParamSymbol), t.params[j]? = some p →
    p.id = j ∧ ∃ s, t.types[p.owner]? = some s ∧ s.typeParams[p.ordinal]? = some j
  formal : ∀ (i : TypeId) (s : TypeSymbol) (k : Nat) (j : TypeParamId), t.types[i]? = some s →
    s.typeParams[k]? = some j → ∃ p, t.params[j]? = some p ∧ p.owner = i ∧ p.ordinal = k
  members : ∀ (key : TypeKey) (i : TypeId),
    t.members.lookup key = some i ↔ ∃ s, t.types[i]? = some s ∧ s.key = key
  keys : ∀ p ∈ parts, ∃ s, t.types[p.type]? = some s ∧ s.key = p.key
  decls : ∀ (site : NameSite) (i : TypeId),
    (site, i) ∈ t.decls ↔ ∃ p ∈ parts, site = ⟨p.file, p.decl.nameSpan⟩ ∧ i = p.type
  paramDecls : ∀ (site : NameSite) (j : TypeParamId), (site, j) ∈ t.paramDecls ↔
    ∃ p ∈ parts, ∃ (k : Nat) (q : TypeParam) (s : TypeSymbol),
      p.decl.typeParams[k]? = some q ∧ site = ⟨p.file, q.nameSpan⟩ ∧
      t.types[p.type]? = some s ∧ s.typeParams[k]? = some j
  locations : ∀ (i : TypeId) (s : TypeSymbol), t.types[i]? = some s →
    s.locations = (parts.filter (·.type = i)).map Part.place
  paramLocations : ∀ (j : TypeParamId) (p : TypeParamSymbol), t.params[j]? = some p →
    p.locations = (parts.filter (·.type = p.owner)).filterMap (·.paramPlace? p.ordinal)

/-! ## A new type -/

section AddType

variable {t : SymbolTable} {parts : List Part} {container : Container} {space : String}
  {d : TypeDecl}

/-- The container of a new type, as its symbol keeps it. -/
def outer? : Container → Option TypeId
  | .type outer => some outer
  | .space _ => none

/-- Holds of a container that a type can be declared in, where it stands in a namespace. -/
def Opens (t : SymbolTable) (space : String) : Container → Prop
  | .type outer => outer < t.types.size
  | .space name => name = space

/-- The symbol of a new type. -/
def newType (t : SymbolTable) (container : Container) (space : String) (d : TypeDecl) : TypeSymbol where
  id := t.types.size
  kind := d.kind
  name := d.name
  space := space
  containingType := outer? container
  typeParams := (newParams t.types.size t.params.size d).map (·.id)
  locations := []
  fullName := match (outer? container).bind t.fullName? with
    | some outer => outer ++ "." ++ d.name
    | none => Dotted.join space d.name

theorem addType_eq (t : SymbolTable) (container : Container) (space : String) (d : TypeDecl) :
    t.addType container space d =
      { t with
        types := t.types.push (t.newType container space d)
        params := t.params ++ (newParams t.types.size t.params.size d).toArray
        members := (⟨container, d.name, d.arity⟩, t.types.size) :: t.members } := by
  cases container <;> rfl

theorem types_addType (i : Nat) :
    (t.addType container space d).types[i]? =
      if i = t.types.size then some (t.newType container space d) else t.types[i]? := by
  rw [addType_eq]
  exact Array.getElem?_push

theorem lt_size_of_getElem? {i : Nat} {s : TypeSymbol} (h : t.types[i]? = some s) :
    i < t.types.size := (Array.getElem?_eq_some_iff.1 h).1

theorem types_addType_of_lt {i : Nat} (h : i < t.types.size) :
    (t.addType container space d).types[i]? = t.types[i]? := by
  rw [types_addType, if_neg (Nat.ne_of_lt h)]

theorem newParams_getElem? (owner first k : Nat) :
    (newParams owner first d)[k]? = (d.typeParams[k]?).map fun p =>
      { id := first + k, owner, ordinal := k, name := p.name, attributes := [], locations := [] } := by
  simp only [newParams, List.getElem?_map, List.getElem?_zipIdx, Option.map_map]
  cases d.typeParams[k]? with
  | none => rfl
  | some p => simp

theorem params_addType (j : Nat) :
    (t.addType container space d).params[j]? =
      if j < t.params.size then t.params[j]?
      else (newParams t.types.size t.params.size d)[j - t.params.size]? := by
  rw [addType_eq, Array.getElem?_append]
  simp

theorem key_newType : (t.newType container space d).key =
    ⟨match container with | .type o => .type o | .space _ => .space space, d.name, d.arity⟩ := by
  cases container <;>
    simp [TypeSymbol.key, newType, outer?, newParams, TypeDecl.arity]

theorem Opens.key_newType (h : t.Opens space container) :
    (t.newType container space d).key = ⟨container, d.name, d.arity⟩ := by
  rw [SymbolTable.key_newType]
  cases container with
  | type o => rfl
  | space name => rw [show name = space from h]

theorem typeParams_newType (k : Nat) : (t.newType container space d).typeParams[k]? =
    (d.typeParams[k]?).map fun _ => t.params.size + k := by
  simp only [newType, List.getElem?_map, newParams_getElem?, Option.map_map]
  rfl

theorem fullName?_addType {i : Nat} (h : i < t.types.size) :
    (t.addType container space d).fullName? i = t.fullName? i := by
  rw [fullName?, fullName?, typeSymbol?, typeSymbol?, types_addType_of_lt h]

/-- A new type is recorded without any part. -/
theorem Records.addType (h : t.Records parts) (hopen : t.Opens space container)
    (hnew : t.member? container d.name d.arity = none) :
    (t.addType container space d).Records parts := by
  have htypes : ∀ {i s}, (t.addType container space d).types[i]? = some s →
      (i = t.types.size ∧ s = t.newType container space d) ∨ t.types[i]? = some s := by
    intro i s hs
    rw [types_addType] at hs
    split at hs
    · next hi => exact .inl ⟨hi, (Option.some.inj hs).symm⟩
    · exact .inr hs
  have hold : ∀ {i s}, t.types[i]? = some s → (t.addType container space d).types[i]? = some s :=
    fun hs => (types_addType_of_lt (lt_size_of_getElem? hs)).trans hs
  have hself : (t.addType container space d).types[t.types.size]? =
      some (t.newType container space d) := by rw [types_addType, if_pos rfl]
  have hparams : ∀ {j p}, (t.addType container space d).params[j]? = some p →
      (∃ k q, d.typeParams[k]? = some q ∧ j = t.params.size + k ∧ p.id = j ∧
        p.owner = t.types.size ∧ p.ordinal = k ∧ p.locations = []) ∨ t.params[j]? = some p := by
    intro j p hp
    rw [params_addType] at hp
    split at hp
    · exact .inr hp
    · next hj =>
      rw [newParams_getElem?] at hp
      obtain ⟨q, hq, rfl⟩ := Option.map_eq_some_iff.1 hp
      exact .inl ⟨_, q, hq, by omega, by dsimp only; omega, rfl, rfl, rfl⟩
  have hfree : ∀ p ∈ parts, p.type ≠ t.types.size := by
    intro p hp
    obtain ⟨s, hs, -⟩ := h.keys p hp
    exact Nat.ne_of_lt (lt_size_of_getElem? hs)
  have hnone : parts.filter (·.type = t.types.size) = [] := by
    rw [List.filter_eq_nil_iff]
    intro p hp
    simpa using hfree p hp
  constructor
  case typeId =>
    intro i s hs
    rcases htypes hs with ⟨rfl, rfl⟩ | hs
    · rfl
    · exact h.typeId i s hs
  case fullName =>
    intro i s hs
    have hbind : ∀ {o : Option TypeId}, (∀ i ∈ o, i < t.types.size) →
        o.bind (t.addType container space d).fullName? = o.bind t.fullName? := by
      intro o ho
      cases o with
      | none => rfl
      | some i => exact fullName?_addType (ho i rfl)
    rcases htypes hs with ⟨rfl, rfl⟩ | hs
    · rw [hbind]
      · rfl
      · intro o ho
        cases container with
        | type outer =>
          obtain rfl := Option.some.inj ho
          exact hopen
        | space name => exact absurd ho (by simp [newType, outer?])
    · rw [h.fullName i s hs, hbind]
      intro o ho
      exact Nat.lt_trans (h.outer i s o hs ho) (lt_size_of_getElem? hs)
  case outer =>
    intro i s o hs ho
    rcases htypes hs with ⟨rfl, rfl⟩ | hs
    · cases container with
      | type outer =>
        obtain rfl := Option.some.inj ho
        exact hopen
      | space name => exact absurd ho (by simp [newType, outer?])
    · exact h.outer i s o hs ho
  case param =>
    intro j p hp
    rcases hparams hp with ⟨k, q, hq, rfl, hid, howner, hordinal, -⟩ | hp
    · refine ⟨hid, _, howner ▸ hself, ?_⟩
      rw [hordinal, typeParams_newType, hq]
      rfl
    · obtain ⟨hid, s, hs, hk⟩ := h.param j p hp
      exact ⟨hid, s, hold hs, hk⟩
  case formal =>
    intro i s k j hs hk
    rcases htypes hs with ⟨rfl, rfl⟩ | hs
    · rw [typeParams_newType] at hk
      obtain ⟨q, hq, rfl⟩ := Option.map_eq_some_iff.1 hk
      have hp : (t.addType container space d).params[t.params.size + k]? =
          some { id := t.params.size + k, owner := t.types.size, ordinal := k, name := q.name
                 attributes := [], locations := [] } := by
        rw [params_addType, if_neg (by omega), Nat.add_sub_cancel_left, newParams_getElem?, hq]
        rfl
      exact ⟨_, hp, rfl, rfl⟩
    · obtain ⟨p, hp, hrest⟩ := h.formal i s k j hs hk
      refine ⟨p, ?_, hrest⟩
      rw [params_addType, if_pos (Array.getElem?_eq_some_iff.1 hp).1]
      exact hp
  case members =>
    intro key i
    have hmembers : (t.addType container space d).members =
        (⟨container, d.name, d.arity⟩, t.types.size) :: t.members := by rw [addType_eq]
    rw [hmembers, List.lookup_cons]
    split
    · next heq =>
      obtain rfl := (beq_iff_eq.1 heq)
      constructor
      · intro hi
        obtain rfl := Option.some.inj hi
        exact ⟨_, hself, hopen.key_newType⟩
      · rintro ⟨s, hs, hkey⟩
        rcases htypes hs with ⟨rfl, -⟩ | hs
        · rfl
        · rw [member?, (h.members _ i).2 ⟨s, hs, hkey⟩] at hnew
          exact absurd hnew (by simp)
    · next hne =>
      rw [h.members]
      constructor
      · rintro ⟨s, hs, hkey⟩
        exact ⟨s, hold hs, hkey⟩
      · rintro ⟨s, hs, hkey⟩
        rcases htypes hs with ⟨rfl, rfl⟩ | hs
        · rw [hopen.key_newType] at hkey
          simp [hkey] at hne
        · exact ⟨s, hs, hkey⟩
  case keys =>
    intro p hp
    obtain ⟨s, hs, hkey⟩ := h.keys p hp
    exact ⟨s, hold hs, hkey⟩
  case decls =>
    intro site i
    rw [addType_eq]
    exact h.decls site i
  case paramDecls =>
    intro site j
    have hdecls : (t.addType container space d).paramDecls = t.paramDecls := by rw [addType_eq]
    rw [hdecls, h.paramDecls]
    constructor
    · rintro ⟨p, hp, k, q, s, hq, hsite, hs, hk⟩
      exact ⟨p, hp, k, q, s, hq, hsite, hold hs, hk⟩
    · rintro ⟨p, hp, k, q, s, hq, hsite, hs, hk⟩
      rcases htypes hs with ⟨hi, -⟩ | hs
      · exact absurd hi (hfree p hp)
      · exact ⟨p, hp, k, q, s, hq, hsite, hs, hk⟩
  case locations =>
    intro i s hs
    rcases htypes hs with ⟨rfl, rfl⟩ | hs
    · rw [hnone]
      rfl
    · exact h.locations i s hs
  case paramLocations =>
    intro j p hp
    rcases hparams hp with ⟨k, q, -, -, -, howner, -, hempty⟩ | hp
    · rw [howner, hnone, hempty]
      rfl
    · exact h.paramLocations j p hp

end AddType

/-! ## A further part -/

section AddPart

variable {t : SymbolTable} {parts : List Part}

/-- A type with further places. -/
def withPlaces (s : TypeSymbol) (places : List Location) : TypeSymbol :=
  { s with locations := s.locations ++ places }

/-- A type parameter with further places. -/
def withParamPlaces (s : TypeParamSymbol) (places : List Location) : TypeParamSymbol :=
  { s with locations := s.locations ++ places }

/-- The places that parts of parameters give to the parameter with a number. -/
def placesOf (file : FileId) (ps : List (TypeParam × TypeParamId)) (j : TypeParamId) :
    List Location :=
  (ps.filter (·.2 = j)).map fun x => ⟨file, x.1.nameSpan⟩

/-- Recording parts of parameters adds their places and nothing else. -/
theorem params_foldl_addParamPart (file : FileId) (t : SymbolTable)
    (ps : List (TypeParam × TypeParamId)) (j : TypeParamId) :
    (ps.foldl (addParamPart file) t).params[j]? =
      (t.params[j]?).map (withParamPlaces · (placesOf file ps j)) := by
  induction ps generalizing t with
  | nil => simp [placesOf, withParamPlaces]
  | cons x ps ih =>
    rw [List.foldl_cons, ih, addParamPart]
    simp only [Array.getElem?_modify]
    by_cases hx : x.2 = j
    · cases t.params[j]? <;> simp [hx, placesOf, withParamPlaces]
    · cases t.params[j]? <;> simp [hx, placesOf, withParamPlaces]

theorem foldl_addParamPart_eq (file : FileId) (t : SymbolTable)
    (ps : List (TypeParam × TypeParamId)) :
    ps.foldl (addParamPart file) t =
      { t with
        params := (ps.foldl (addParamPart file) t).params
        paramDecls := (ps.map fun x => (⟨file, x.1.nameSpan⟩, x.2)).reverse ++ t.paramDecls } := by
  induction ps generalizing t with
  | nil => rfl
  | cons x ps ih =>
    rw [List.foldl_cons, ih]
    simp [addParamPart]

/-- Of a list zipped with numbers that are all different, one element has a number. -/
theorem filter_zip_eq {α : Type} {as : List α} {ids : List Nat} (hn : ids.Nodup) {k j : Nat}
    (hk : ids[k]? = some j) :
    (as.zip ids).filter (·.2 = j) = ((as[k]?).map fun a => (a, j)).toList := by
  induction ids generalizing as k with
  | nil => simp at hk
  | cons i ids ih =>
    obtain ⟨hi, hn⟩ := List.nodup_cons.1 hn
    cases as with
    | nil => simp
    | cons a as =>
      rw [List.zip_cons_cons]
      cases k with
      | zero =>
        obtain rfl : i = j := by simpa using hk
        have hrest : (as.zip ids).filter (·.2 = i) = [] := by
          rw [List.filter_eq_nil_iff]
          intro x hx
          have := (List.of_mem_zip hx).2
          simp only [decide_eq_true_eq]
          rintro rfl
          exact hi this
        simp [hrest]
      | succ k =>
        have hk' : ids[k]? = some j := by simpa using hk
        have hne : i ≠ j := by
          rintro rfl
          exact hi (List.mem_of_getElem? hk')
        simp [hne, ih hn hk']

theorem types_addPart (t : SymbolTable) (file : FileId) (id : TypeId) (d : TypeDecl) (i : TypeId) :
    (t.addPart file id d).types[i]? =
      (t.types[i]?).map (withPlaces · (if i = id then [⟨file, d.nameSpan⟩] else [])) := by
  rw [addPart, foldl_addParamPart_eq]
  simp only [Array.getElem?_modify]
  by_cases hi : id = i
  · cases t.types[i]? <;> simp [hi, withPlaces]
  · cases t.types[i]? <;> simp [hi, Ne.symm hi, withPlaces]

theorem fullName?_addPart (t : SymbolTable) (file : FileId) (id : TypeId) (d : TypeDecl) :
    (t.addPart file id d).fullName? = t.fullName? := by
  funext i
  rw [fullName?, fullName?, typeSymbol?, typeSymbol?, types_addPart]
  cases t.types[i]? <;> rfl

/-- The numbers of a type's parameters are all different. -/
theorem Records.nodup_typeParams (h : t.Records parts) {i : TypeId} {s : TypeSymbol}
    (hs : t.types[i]? = some s) : s.typeParams.Nodup := by
  refine List.pairwise_iff_getElem.2 fun k l hk hl hkl he => ?_
  obtain ⟨p, hp, -, hpl⟩ := h.formal i s l _ hs (List.getElem?_eq_getElem hl)
  obtain ⟨q, hq, -, hqk⟩ := h.formal i s k _ hs (List.getElem?_eq_getElem hk)
  rw [he] at hq
  obtain rfl := Option.some.inj (hp.symm.trans hq)
  omega

/-- A further part of a type is recorded at the end. -/
theorem Records.addPart (h : t.Records parts) {file : FileId} {container : Container}
    {id : TypeId} {d : TypeDecl} {s : TypeSymbol} (hs : t.types[id]? = some s)
    (hkey : s.key = ⟨container, d.name, d.arity⟩) :
    (t.addPart file id d).Records (parts ++ [⟨⟨file, container, d⟩, id⟩]) := by
  have hlen : s.typeParams.length = d.typeParams.length := congrArg TypeKey.arity hkey
  have hnodup := h.nodup_typeParams hs
  have htypes : ∀ {i s'}, (t.addPart file id d).types[i]? = some s' →
      ∃ s, t.types[i]? = some s ∧
        s' = withPlaces s (if i = id then [⟨file, d.nameSpan⟩] else []) := by
    intro i s' hs'
    rw [types_addPart] at hs'
    obtain ⟨s, hs, rfl⟩ := Option.map_eq_some_iff.1 hs'
    exact ⟨s, hs, rfl⟩
  have hold : ∀ {i : TypeId} {s : TypeSymbol}, t.types[i]? = some s →
      ∃ s' : TypeSymbol, (t.addPart file id d).types[i]? = some s' ∧ s'.key = s.key ∧
        s'.typeParams = s.typeParams := by
    intro i s hs
    exact ⟨withPlaces s (if i = id then [⟨file, d.nameSpan⟩] else []),
      by rw [types_addPart, hs]; rfl, rfl, rfl⟩
  have hfold : t.addPart file id d =
      (d.typeParams.zip s.typeParams).foldl (addParamPart file)
        { t with
          types := t.types.modify id fun s =>
            { s with locations := s.locations ++ [⟨file, d.nameSpan⟩] }
          decls := (⟨file, d.nameSpan⟩, id) :: t.decls } := by
    rw [SymbolTable.addPart]
    simp [typeSymbol?, Array.getElem?_modify, hs]
  have hparams : ∀ {j p'}, (t.addPart file id d).params[j]? = some p' → ∃ p,
      t.params[j]? = some p ∧
        p' = withParamPlaces p (placesOf file (d.typeParams.zip s.typeParams) j) := by
    intro j p' hp'
    rw [hfold, params_foldl_addParamPart] at hp'
    obtain ⟨p, hp, rfl⟩ := Option.map_eq_some_iff.1 hp'
    exact ⟨p, hp, rfl⟩
  have hmembers : (t.addPart file id d).members = t.members := by rw [hfold, foldl_addParamPart_eq]
  have hdecls : (t.addPart file id d).decls = (⟨file, d.nameSpan⟩, id) :: t.decls := by
    rw [hfold, foldl_addParamPart_eq]
  have hparamDecls : (t.addPart file id d).paramDecls =
      ((d.typeParams.zip s.typeParams).map fun x => (⟨file, x.1.nameSpan⟩, x.2)).reverse ++
        t.paramDecls := by
    rw [hfold, foldl_addParamPart_eq]
  constructor
  case typeId =>
    intro i s' hs'
    obtain ⟨s, hs, rfl⟩ := htypes hs'
    exact h.typeId i s hs
  case fullName =>
    intro i s' hs'
    obtain ⟨s, hs, rfl⟩ := htypes hs'
    rw [fullName?_addPart]
    exact h.fullName i s hs
  case outer =>
    intro i s' o hs' ho
    obtain ⟨s, hs, rfl⟩ := htypes hs'
    exact h.outer i s o hs ho
  case param =>
    intro j p' hp'
    obtain ⟨p, hp, rfl⟩ := hparams hp'
    obtain ⟨hid, s, hs, hk⟩ := h.param j p hp
    obtain ⟨s', hs', -, hformals⟩ := hold hs
    exact ⟨hid, s', hs', hformals ▸ hk⟩
  case formal =>
    intro i s' k j hs' hk
    obtain ⟨s₀, hs₀, rfl⟩ := htypes hs'
    obtain ⟨p, hp, howner, hordinal⟩ := h.formal i s₀ k j hs₀ hk
    refine ⟨withParamPlaces p (placesOf file (d.typeParams.zip s.typeParams) j), ?_, howner,
      hordinal⟩
    rw [hfold, params_foldl_addParamPart, hp]
    rfl
  case members =>
    intro key i
    rw [hmembers, h.members]
    constructor
    · rintro ⟨s, hs, rfl⟩
      obtain ⟨s', hs', hkey', -⟩ := hold hs
      exact ⟨s', hs', hkey'⟩
    · rintro ⟨s', hs', rfl⟩
      obtain ⟨s, hs, rfl⟩ := htypes hs'
      exact ⟨s, hs, rfl⟩
  case keys =>
    intro p hp
    rcases List.mem_append.1 hp with hp | hp
    · obtain ⟨s, hs, hkey⟩ := h.keys p hp
      obtain ⟨s', hs', hkey', -⟩ := hold hs
      exact ⟨s', hs', hkey'.trans hkey⟩
    · obtain rfl := List.mem_singleton.1 hp
      obtain ⟨s', hs', hkey', -⟩ := hold hs
      exact ⟨s', hs', hkey'.trans hkey⟩
  case decls =>
    intro site i
    rw [hdecls, List.mem_cons, h.decls]
    simp only [List.mem_append, List.mem_singleton, Prod.mk.injEq]
    constructor
    · rintro (⟨hsite, hi⟩ | ⟨p, hp, hrest⟩)
      · exact ⟨_, .inr rfl, hsite, hi⟩
      · exact ⟨p, .inl hp, hrest⟩
    · rintro ⟨p, hp | rfl, hrest⟩
      · exact .inr ⟨p, hp, hrest⟩
      · exact .inl hrest
  case paramDecls =>
    intro site j
    rw [hparamDecls, List.mem_append, List.mem_reverse, List.mem_map, h.paramDecls]
    constructor
    · rintro (⟨⟨q, j'⟩, hx, hxe⟩ | ⟨p, hp, k, q, s', hq, hsite, hs', hk⟩)
      · obtain ⟨rfl, rfl⟩ := Prod.mk.inj hxe
        obtain ⟨k, hk⟩ := List.mem_iff_getElem?.1 hx
        obtain ⟨hq, hj⟩ := List.getElem?_zip_eq_some.1 hk
        obtain ⟨s', hs', -, hformals⟩ := hold hs
        exact ⟨_, List.mem_append_right _ (List.mem_singleton.2 rfl), k, q, s', hq, rfl, hs',
          hformals ▸ hj⟩
      · obtain ⟨s'', hs'', -, hformals⟩ := hold hs'
        exact ⟨p, List.mem_append_left _ hp, k, q, s'', hq, hsite, hs'', hformals ▸ hk⟩
    · rintro ⟨p, hp, k, q, s', hq, rfl, hs', hk⟩
      obtain ⟨s₀, hs₀, rfl⟩ := htypes hs'
      rcases List.mem_append.1 hp with hp | hp
      · exact .inr ⟨p, hp, k, q, s₀, hq, rfl, hs₀, hk⟩
      · obtain rfl := List.mem_singleton.1 hp
        obtain rfl := Option.some.inj (hs.symm.trans hs₀)
        refine .inl ⟨(q, j), ?_, rfl⟩
        exact List.mem_of_getElem? (List.getElem?_zip_eq_some.2 ⟨hq, hk⟩)
  case locations =>
    intro i s' hs'
    obtain ⟨s₀, hs₀, rfl⟩ := htypes hs'
    rw [withPlaces, h.locations i s₀ hs₀, List.filter_append, List.map_append]
    by_cases hi : i = id
    · simp [hi, Part.place]
    · simp [hi, Ne.symm hi]
  case paramLocations =>
    intro j p' hp'
    obtain ⟨p, hp, rfl⟩ := hparams hp'
    have howned : (withParamPlaces p (placesOf file (d.typeParams.zip s.typeParams) j)).owner =
        p.owner := rfl
    rw [howned, List.filter_append, List.filterMap_append, withParamPlaces,
      h.paramLocations j p hp]
    refine congrArg (_ ++ ·) ?_
    by_cases howner : p.owner = id
    · obtain ⟨-, s', hs', hk⟩ := h.param j p hp
      rw [howner] at hs'
      obtain rfl := Option.some.inj (hs.symm.trans hs')
      rw [placesOf, filter_zip_eq hnodup hk]
      cases hq : d.typeParams[p.ordinal]? <;> simp [Part.paramPlace?, howner, hq]
    · have hnone : (d.typeParams.zip s.typeParams).filter (·.2 = j) = [] := by
        rw [List.filter_eq_nil_iff]
        intro x hx
        obtain ⟨k, hk⟩ := List.mem_iff_getElem?.1 (List.of_mem_zip hx).2
        obtain ⟨q, hq, hqo, -⟩ := h.formal id s k x.2 hs hk
        simp only [decide_eq_true_eq]
        rintro rfl
        obtain rfl := Option.some.inj (hp.symm.trans hq)
        exact howner hqo
      simp [placesOf, hnone, Ne.symm howner]

end AddPart

end SymbolTable

end SelfTypeLint
