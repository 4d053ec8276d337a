import KhCommon.Lib.OrderedDict
import KhCommon.Lib.Python

/-! `kh_common.config.credentials`: the module body, which makes the credentials of one
environment its own attributes. The files of the directory come in the order of
`listdir`. The variables of the loop are deleted at the end of a round but outlive a
round that is left by `continue`, and a round over another kind of file reads them. -/

namespace KhCommon.Credentials

open Python

variable {E V : Type}

abbrev Section (V : Type) := OrderedDict String V

abbrev Config (V : Type) := OrderedDict String (Section V)

/-- An entry of the directory, and what `json_load` makes of it. -/
structure File (E V : Type) where
  name : Str
  content : Except E (Config V)

inductive Exc (E : Type)
  | json (error : E) -- from `open` or `json_load`
  | nameError -- `c` is not bound
  | typeError -- `c` is `None`

/-- What an attribute of the module is: something of its own, or a credential. -/
inductive Attribute (V : Type)
  | own
  | credential (value : V)

def File.isJson (file : File E V) : Bool := literal ".json" <:+ file.name

/-- `config.get(environment) or config.get('prod')`. -/
def Config.select (environment : String) (config : Config V) : Option (Section V) :=
  match config.get? environment with
  | some c => if c.items = [] then config.get? "prod" else some c
  | none => config.get? "prod"

/-- `c`: none while it is not bound. -/
abbrev Bound (V : Type) := Option (Option (Section V))

def loop (environment : String) : List (File E V) → Section V → Bound V →
    Except (Exc E) (Section V × Bound V)
  | [], vars, c => .ok (vars, c)
  | file :: files, vars, c =>
    if file.isJson then
      match file.content with
      | .error e => .error (.json e)
      | .ok config =>
        match config.select environment with
        | none => loop environment files vars (some none)
        | some c =>
          if c.items = [] then loop environment files vars (some (some c))
          else loop environment files (vars.update c.items) none
    else
      match c with
      | none => .error .nameError
      | some none => .error .typeError
      | some (some c) => loop environment files (vars.update c.items) none

def ownNames : List String :=
  ["environ", "listdir", "path", "Any", "Dict", "json_load", "environment", "env_vars"]

def loopNames : List String := ["filename", "config", "c"]

/-- `del env_vars, environment, environ, path, listdir, json_load`. -/
def deleted : List String := ["env_vars", "environment", "environ", "path", "listdir", "json_load"]

def bind (names : List String) : List (String × Attribute V) := names.map fun name => (name, .own)

/-- The module: its attributes once it is imported. The directory is none when there is not one. -/
def load (environment : String) (directory : Option (List (File E V))) :
    Except (Exc E) (OrderedDict String (Attribute V)) :=
  match loop environment (directory.getD []) ∅ none with
  | .error e => .error e
  | .ok (vars, c) =>
    let own := (∅ : OrderedDict String (Attribute V)).update (bind ownNames)
    let bound := if c.isSome then own.update (bind loopNames) else own
    let attributes := bound.update (vars.mapValues .credential).items
    .ok (deleted.foldl .erase attributes)

/-! ## When the loop goes through -/

def File.section? (environment : String) (file : File E V) : Option (Section V) :=
  match file.isJson, file.content with
  | true, .ok config => (config.select environment).filter (·.items ≠ [])
  | _, _ => none

/-- What the round of a file leaves of `c`: it stays bound when there are no credentials in it. -/
def File.leaves (environment : String) (file : File E V) : Bound V :=
  match file.isJson, file.content with
  | true, .ok config =>
    if (file.section? environment).isSome then none else some (config.select environment)
  | _, _ => none

def behind (environment : String) (c : Bound V) (before : List (File E V)) : Bound V :=
  (before.getLast?.map (File.leaves environment)).getD c

def lastOf (environment : String) (files : List (File E V)) (name : String) : Option V :=
  (files.filterMap (File.section? environment)).reverse.findSome? (OrderedDict.get? · name)

/-- Every JSON file can be read, and every other entry comes right after a JSON file whose selected
section is there and empty. -/
structure Loads (environment : String) (c : Bound V) (files : List (File E V)) : Prop where
  read : ∀ file ∈ files, file.isJson → ∃ config, file.content = .ok config
  follow : ∀ before file after, files = before ++ file :: after → ¬file.isJson →
    behind environment c before = some (some ∅)

variable {environment : String} {file : File E V} {files : List (File E V)} {c : Bound V}

theorem behind_cons (file : File E V) (before : List (File E V)) :
    behind environment c (file :: before) =
      behind environment (file.leaves environment) before := by
  unfold behind
  rw [List.getLast?_cons]
  cases before.getLast? <;> rfl

theorem loads_nil : Loads environment c ([] : List (File E V)) :=
  ⟨nofun, fun before file after split => by simp at split⟩

theorem loads_cons : Loads environment c (file :: files) ↔
    ((file.isJson → ∃ config, file.content = .ok config) ∧
      (¬file.isJson → c = some (some ∅))) ∧ Loads environment (file.leaves environment) files := by
  constructor
  · intro h
    obtain ⟨first, rest⟩ := List.forall_mem_cons.mp h.read
    refine ⟨⟨first, h.follow [] file files rfl⟩, rest, fun before other after split notJson => ?_⟩
    rw [← behind_cons]
    exact h.follow (file :: before) other after (by rw [split, List.cons_append]) notJson
  · rintro ⟨⟨first, here⟩, rest⟩
    refine ⟨List.forall_mem_cons.mpr ⟨first, rest.read⟩, fun before other after split notJson => ?_⟩
    cases before with
    | nil =>
      obtain ⟨rfl, -⟩ := List.cons.inj split
      exact here notJson
    | cons f before =>
      obtain ⟨rfl, tail⟩ := List.cons.inj split
      rw [behind_cons]
      exact rest.follow before other after tail notJson

theorem lastOf_cons (name : String) : lastOf environment (file :: files) name =
    (lastOf environment files name).or
      ((file.section? environment).bind (OrderedDict.get? · name)) := by
  unfold lastOf
  cases found : file.section? environment with
  | none => simp [found]
  | some s => simp [found, List.findSome?_append]

def Comes (environment : String) (files : List (File E V)) (vars : Section V) (c : Bound V) :
    Except (Exc E) (Section V × Bound V) → Prop
  | .ok (vars', c') => Loads environment c files ∧ c' = behind environment c files ∧
      ∀ name, vars'.get? name = (lastOf environment files name).or (vars.get? name)
  | .error _ => ¬Loads environment c files

theorem Comes.cons {vars : Section V} (vars' : Section V)
    {answer : Except (Exc E) (Section V × Bound V)}
    (read : file.isJson → ∃ config, file.content = .ok config)
    (follow : ¬file.isJson → c = some (some ∅))
    (values : ∀ name, vars'.get? name =
      ((file.section? environment).bind (OrderedDict.get? · name)).or (vars.get? name))
    (rest : Comes environment files vars' (file.leaves environment) answer) :
    Comes environment (file :: files) vars c answer := by
  cases answer with
  | error e => exact fun loads => rest (loads_cons.mp loads).2
  | ok after =>
    obtain ⟨loads, bound, held⟩ := rest
    refine ⟨loads_cons.mpr ⟨⟨read, follow⟩, loads⟩, bound.trans (behind_cons file files).symm, ?_⟩
    intro name
    rw [held, values, lastOf_cons, Option.or_assoc]

theorem Comes.skip {vars : Section V} {answer : Except (Exc E) (Section V × Bound V)}
    (no_section : file.section? environment = none)
    (read : file.isJson → ∃ config, file.content = .ok config)
    (follow : ¬file.isJson → c = some (some ∅))
    (rest : Comes environment files vars (file.leaves environment) answer) :
    Comes environment (file :: files) vars c answer := by
  refine .cons vars read follow (fun name => ?_) rest
  rw [no_section]
  rfl

/-- A bound `c` is `None` or empty, since otherwise it is deleted. -/
theorem loop_comes (vars : Section V) (falsy : ∀ s, c = some (some s) → s = ∅) :
    Comes environment files vars c (loop environment files vars c) := by
  induction files generalizing vars c with
  | nil => exact ⟨loads_nil, rfl, fun name => rfl⟩
  | cons file files ih =>
    by_cases json : file.isJson
    · rcases content : file.content with e | config
      · simp only [loop, json, content, if_true]
        exact fun loads => by simpa [content] using (loads_cons.mp loads).1.1 json
      · have read : file.isJson → ∃ config, file.content = .ok config := fun _ => ⟨config, content⟩
        simp only [loop, json, content, if_true]
        cases selected : config.select environment with
        | none =>
          have no_section : file.section? environment = none := by
            simp [File.section?, json, content, selected]
          have leaves : file.leaves environment = some none := by
            simp [File.leaves, json, content, no_section, selected]
          refine .skip no_section read (absurd json) ?_
          rw [leaves]
          exact ih vars (by simp)
        | some s =>
          dsimp only
          split_ifs with empty
          · have no_section : file.section? environment = none := by
              simp [File.section?, json, content, selected, empty]
            have leaves : file.leaves environment = some (some s) := by
              simp [File.leaves, json, content, no_section, selected]
            refine .skip no_section read (absurd json) ?_
            rw [leaves]
            refine ih vars fun s' same => ?_
            obtain rfl : s = s' := by simpa using same
            exact OrderedDict.ext empty
          · have section_eq : file.section? environment = some s := by
              simp [File.section?, json, content, selected, empty]
            have leaves : file.leaves environment = none := by
              simp [File.leaves, json, content, section_eq]
            refine .cons (vars.update s.items) read (absurd json) (fun name => ?_) ?_
            · rw [section_eq, OrderedDict.get?_update s.nodup]
              rfl
            · rw [leaves]
              exact ih _ nofun
    · have no_section : file.section? environment = none := by simp [File.section?, json]
      have leaves : file.leaves environment = none := by simp [File.leaves, json]
      have follows : c ≠ some (some ∅) → ¬Loads environment c (file :: files) :=
        fun other loads => other ((loads_cons.mp loads).1.2 json)
      simp only [loop, json, Bool.false_eq_true, if_false]
      rcases c with _ | _ | s
      · exact follows nofun
      · exact follows (by simp)
      · obtain rfl := falsy s rfl
        refine .skip no_section (absurd · json) (fun _ => rfl) ?_
        rw [leaves]
        exact ih _ (by simp)

/-! ## The attributes -/

theorem get?_foldl_erase {W : Type} (names : List String) (d : OrderedDict String W)
    (name : String) :
    (names.foldl OrderedDict.erase d).get? name = if name ∈ names then none else d.get? name := by
  induction names generalizing d with
  | nil => rfl
  | cons n names ih =>
    rw [List.foldl_cons, ih, OrderedDict.get?_erase]
    by_cases same : name = n <;> simp [same]

theorem get?_update_bind {names : List String} (distinct : names.Nodup)
    (d : OrderedDict String (Attribute V)) (name : String) :
    (d.update (bind names)).get? name = if name ∈ names then some .own else d.get? name := by
  have keys : (bind names : List (String × Attribute V)).map Prod.fst = names := by
    rw [bind, List.map_map]
    exact List.map_id names
  have lookup : (bind names : List (String × Attribute V)).lookup name =
      if name ∈ names then some .own else none := by
    clear distinct keys
    induction names with
    | nil => rfl
    | cons n names ih =>
      rw [bind, List.map_cons, List.lookup_cons, ← bind, ih]
      by_cases same : name = n
      · simp [same]
      · have other : (name == n) = false := by simpa using same
        simp [same, other]
  rw [OrderedDict.get?_update (keys.symm ▸ distinct), lookup]
  split_ifs <;> rfl

def ownAttribute (environment : String) (files : List (File E V)) (name : String) :
    Option (Attribute V) :=
  if name ∈ ["Any", "Dict"] ∨ name ∈ loopNames ∧ (behind environment none files).isSome then
    some .own
  else none

end KhCommon.Credentials
