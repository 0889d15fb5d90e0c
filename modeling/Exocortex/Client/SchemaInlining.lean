import Exocortex.Kernel.Json
import Mathlib.Logic.Relation

/-!
# Inlining of schema references

`inlineSchemaRefs` replaces each object that refers to a definition by the definition, in which it
goes on. A reference to a name that is being expanded, or to one that is not defined, stays with its
whole object. Every call has fewer names left to expand or a smaller value, so it ends.

Where an object that refers stays, the names that are being expanded are those of the definitions
that the position comes from (`Expansion`), and the name is one of them or not defined
(`exposed_reference`). If no definition leads to itself, the name leads to no name above it, so it
is not defined (`Expansion.leads`). What stands inside of an object that stays is not inlined.
-/

namespace Exocortex

/-! ## Inlining -/

/-- The rest of a text behind the beginning given. -/
def stripPrefix (start text : String) : Option String :=
  if start.toList <+: text.toList then some (String.ofList (text.toList.drop start.length))
  else none

/-- The name of the definition that an object with these fields refers to. -/
def definitionName (fields : List (String × JsonValue)) : Option String :=
  match fields.lookup "$ref" with
  | some (.string reference) => stripPrefix "#/definitions/" reference
  | _ => none

/-- How many definitions are not being expanded. -/
def unexpanded (defs : List (String × JsonValue)) (expanding : List String) : ℕ :=
  (defs.filter fun definition => definition.1 ∉ expanding).length

variable {defs fields : List (String × JsonValue)} {name : String}
  {definition last value : JsonValue} {expanding names : List String}

theorem mem_of_lookup (defined : defs.lookup name = some definition) :
    (name, definition) ∈ defs := by
  obtain ⟨before, behind, same, -⟩ := List.lookup_eq_some_iff.mp defined
  rw [same]
  exact List.mem_append_right _ List.mem_cons_self

theorem unexpanded_push (fresh : name ∉ expanding) (defined : defs.lookup name = some definition) :
    unexpanded defs (expanding ++ [name]) < unexpanded defs expanding := by
  have further : (defs.filter fun definition => definition.1 ∉ expanding ++ [name]) =
      (defs.filter fun definition => definition.1 ∉ expanding).filter fun definition =>
        definition.1 ≠ name := by
    rw [List.filter_filter]
    refine List.filter_congr fun definition _ => ?_
    rw [← Bool.decide_and, decide_eq_decide, List.mem_append, List.mem_singleton, not_or, and_comm]
  rw [unexpanded, unexpanded, further]
  refine List.length_filter_lt_length_iff_exists.mpr ⟨(name, definition), ?_, ?_⟩
  · exact List.mem_filter.mpr ⟨mem_of_lookup defined, decide_eq_true fresh⟩
  · rw [decide_eq_true_iff]
    exact fun other => other rfl

def inlineSchemaRefs (defs : List (String × JsonValue)) (expanding : List String) :
    JsonValue → JsonValue
  | .object fields =>
      match definitionName fields with
      | some name =>
          if name ∈ expanding then .object fields
          else
            match _ : defs.lookup name with
            | some definition => inlineSchemaRefs defs (expanding ++ [name]) definition
            | none => .object fields
      | none => .object (fields.map fun field => (field.1, inlineSchemaRefs defs expanding field.2))
  | .array items => .array (items.map (inlineSchemaRefs defs expanding))
  | value => value
termination_by value => (unexpanded defs expanding, value)
decreasing_by
  · exact Prod.Lex.left _ _ (unexpanded_push ‹_› ‹_›)
  · next listed =>
      refine Prod.Lex.right _ ?_
      have smaller := List.sizeOf_lt_of_mem listed
      change sizeOf field.2 < sizeOf (JsonValue.object fields)
      have parts : sizeOf field = 1 + sizeOf field.1 + sizeOf field.2 := rfl
      rw [JsonValue.object.sizeOf_spec]
      omega
  · next listed =>
      refine Prod.Lex.right _ ?_
      have smaller := List.sizeOf_lt_of_mem listed
      change sizeOf _ < sizeOf (JsonValue.array items)
      rw [JsonValue.array.sizeOf_spec]
      omega

/-- A tool, with the fields of its schema. -/
structure Tool where
  name : String
  description : String
  inputSchema : List (String × JsonValue)

/-- A tool whose schema has its definitions inlined. -/
def selfContained (tool : Tool) : Tool :=
  match tool.inputSchema.lookup "definitions" with
  | some (.object defs) =>
      let schema := tool.inputSchema.filter fun field => field.1 ≠ "definitions"
      match inlineSchemaRefs defs [] (.object schema) with
      | .object fields => { tool with inputSchema := fields }
      | _ => tool
  | _ => tool

/-! ## What remains -/

inductive SchemaStep where
  | field (key : String)
  | item (index : ℕ)

/-- The name that a value refers to. -/
def refersTo : JsonValue → Option String
  | .object fields => definitionName fields
  | _ => none

/-- What stands in a value, and on which path. The path leads only through objects as given. -/
inductive Within (through : List (String × JsonValue) → Prop) :
    JsonValue → List SchemaStep → JsonValue → Prop
  | here (value : JsonValue) : Within through value [] value
  | field {fields : List (String × JsonValue)} {key : String} {child value : JsonValue}
      {path : List SchemaStep} (passes : through fields) (listed : (key, child) ∈ fields)
      (inside : Within through child path value) :
      Within through (.object fields) (.field key :: path) value
  | item {items : List JsonValue} {index : ℕ} {child value : JsonValue} {path : List SchemaStep}
      (listed : items[index]? = some child) (inside : Within through child path value) :
      Within through (.array items) (.item index :: path) value

/-- Anywhere. -/
abbrev Inside : JsonValue → List SchemaStep → JsonValue → Prop := Within fun _ => True

/-- Anywhere but inside of an object that refers to a definition. -/
abbrev Exposed : JsonValue → List SchemaStep → JsonValue → Prop :=
  Within fun fields => definitionName fields = none

/-- **What the expansion of a value has at a position**, and the names whose definitions lead there.
An object that refers to a further name which is defined is expanded; any other object that refers
is kept as it is. -/
inductive Expansion (defs : List (String × JsonValue)) :
    List String → JsonValue → List SchemaStep → List String → JsonValue → Prop
  | expand {names all : List String} {value definition last : JsonValue} {path : List SchemaStep}
      {name : String} (refers : refersTo value = some name) (fresh : name ∉ names)
      (defined : defs.lookup name = some definition)
      (onward : Expansion defs (names ++ [name]) definition path all last) :
      Expansion defs names value path all last
  | keep {names : List String} {value last : JsonValue} {path : List SchemaStep} {name : String}
      (refers : refersTo value = some name) (stays : name ∈ names ∨ defs.lookup name = none)
      (inside : Inside value path last) : Expansion defs names value path names last
  | here {names : List String} {value : JsonValue} (plain : refersTo value = none) :
      Expansion defs names value [] names value
  | field {names all : List String} {fields : List (String × JsonValue)} {key : String}
      {child last : JsonValue} {path : List SchemaStep} (plain : definitionName fields = none)
      (listed : (key, child) ∈ fields) (onward : Expansion defs names child path all last) :
      Expansion defs names (.object fields) (.field key :: path) all last
  | item {names all : List String} {items : List JsonValue} {index : ℕ} {child last : JsonValue}
      {path : List SchemaStep} (listed : items[index]? = some child)
      (onward : Expansion defs names child path all last) :
      Expansion defs names (.array items) (.item index :: path) all last

/-- The definition of a name refers to another one somewhere. -/
def Mentions (defs : List (String × JsonValue)) (name other : String) : Prop :=
  ∃ definition path value, defs.lookup name = some definition ∧ Inside definition path value ∧
    refersTo value = some other

/-- No definition leads back to itself. -/
def Acyclic (defs : List (String × JsonValue)) : Prop :=
  ∀ name, ¬ Relation.TransGen (Mentions defs) name name

/-- No definition is a bare text; those of a schema are objects or truth values. -/
def Schemas (defs : List (String × JsonValue)) : Prop :=
  ∀ name text, defs.lookup name ≠ some (.string text)

variable {defs : List (String × JsonValue)}

/-! ## One call -/

section Calls

variable {expanding : List String} {fields : List (String × JsonValue)} {name : String}

theorem inlineSchemaRefs_expand (refers : definitionName fields = some name)
    (fresh : name ∉ expanding) (defined : defs.lookup name = some definition) :
    inlineSchemaRefs defs expanding (.object fields) =
      inlineSchemaRefs defs (expanding ++ [name]) definition := by
  rw [inlineSchemaRefs, refers]
  dsimp only
  rw [if_neg fresh]
  split
  · next found =>
      rw [defined] at found
      cases found
      rfl
  · next missing =>
      rw [defined] at missing
      cases missing

theorem inlineSchemaRefs_stays (refers : definitionName fields = some name)
    (stays : name ∈ expanding ∨ defs.lookup name = none) :
    inlineSchemaRefs defs expanding (.object fields) = .object fields := by
  rw [inlineSchemaRefs, refers]
  dsimp only
  split
  · rfl
  · next fresh =>
      split
      · next found =>
          have missing := stays.resolve_left fresh
          rw [found] at missing
          cases missing
      · rfl

theorem inlineSchemaRefs_plain (plain : definitionName fields = none) :
    inlineSchemaRefs defs expanding (.object fields) =
      .object (fields.map fun field => (field.1, inlineSchemaRefs defs expanding field.2)) := by
  rw [inlineSchemaRefs, plain]

end Calls

/-- Only a text is inlined to a text. -/
theorem inlineSchemaRefs_string (schemas : Schemas defs) {text : String} (expanding : List String)
    (value : JsonValue) (same : inlineSchemaRefs defs expanding value = .string text) :
    value = .string text := by
  induction expanding, value using inlineSchemaRefs.induct defs with
  | case1 expanding fields name refers held =>
      rw [inlineSchemaRefs_stays refers (.inl held)] at same
      cases same
  | case2 expanding fields name refers fresh definition defined ih =>
      rw [inlineSchemaRefs_expand refers fresh defined] at same
      rw [ih same] at defined
      exact absurd defined (schemas name text)
  | case3 expanding fields name refers fresh missing =>
      rw [inlineSchemaRefs_stays refers (.inr missing)] at same
      cases same
  | case4 expanding fields plain ih =>
      rw [inlineSchemaRefs_plain plain] at same
      cases same
  | case5 expanding items ih =>
      rw [inlineSchemaRefs] at same
      cases same
  | case6 expanding value unobject unarray =>
      rw [inlineSchemaRefs] at same
      · exact same
      · exact unobject
      · exact unarray

theorem lookup_map_snd {α β : Type*} (f : β → α) (key : String) (fields : List (String × β)) :
    (fields.map fun field => (field.1, f field.2)).lookup key = (fields.lookup key).map f := by
  induction fields with
  | nil => rfl
  | cons field fields ih =>
      rw [List.map_cons, List.lookup_cons, List.lookup_cons]
      split
      · rfl
      · exact ih

/-- An object that refers to nothing does so with its members inlined. -/
theorem definitionName_inlined (schemas : Schemas defs) (plain : definitionName fields = none) :
    definitionName (fields.map fun field =>
      (field.1, inlineSchemaRefs defs expanding field.2)) = none := by
  rw [definitionName, lookup_map_snd]
  cases found : fields.lookup "$ref" with
  | none => rfl
  | some value =>
      cases inlined : inlineSchemaRefs defs expanding value with
      | string reference =>
          rw [inlineSchemaRefs_string schemas expanding value inlined] at found
          rw [definitionName, found] at plain
          rw [Option.map_some, inlined]
          exact plain
      | _ => rw [Option.map_some, inlined]

variable {path : List SchemaStep}

/-- Nothing in an object that refers and stays is exposed. -/
theorem Within.of_refers {other : String} (exposed : Exposed (.object fields) path last)
    (refersOther : definitionName fields = some other)
    (stays : other ∈ names ∨ defs.lookup other = none) (refers : refersTo last = some name) :
    ∃ all, Expansion defs names (.object fields) path all last ∧
      (name ∈ all ∨ defs.lookup name = none) := by
  cases exposed with
  | here =>
      have same : other = name := Option.some.inj (refersOther.symm.trans refers)
      subst same
      exact ⟨names, .keep refersOther stays (.here _), stays⟩
  | field passes =>
      rw [refersOther] at passes
      cases passes

/-- **What refers to a definition after inlining** stands at its position of the expansion, and
refers to nothing defined or to a name whose definition leads there. -/
theorem exposed_reference (schemas : Schemas defs)
    (exposed : Exposed (inlineSchemaRefs defs names value) path last)
    (refers : refersTo last = some name) :
    ∃ all, Expansion defs names value path all last ∧ (name ∈ all ∨ defs.lookup name = none) := by
  induction names, value using inlineSchemaRefs.induct defs generalizing path with
  | case1 names fields other refersOther held =>
      rw [inlineSchemaRefs_stays refersOther (.inl held)] at exposed
      exact exposed.of_refers refersOther (.inl held) refers
  | case2 names fields other refersOther fresh definition defined ih =>
      rw [inlineSchemaRefs_expand refersOther fresh defined] at exposed
      obtain ⟨all, onward, ends⟩ := ih exposed
      exact ⟨all, .expand refersOther fresh defined onward, ends⟩
  | case3 names fields other refersOther fresh missing =>
      rw [inlineSchemaRefs_stays refersOther (.inr missing)] at exposed
      exact exposed.of_refers refersOther (.inr missing) refers
  | case4 names fields plain ih =>
      rw [inlineSchemaRefs_plain plain] at exposed
      cases exposed with
      | here =>
          rw [refersTo, definitionName_inlined schemas plain] at refers
          cases refers
      | field passes listed inside =>
          obtain ⟨⟨key, child⟩, there, same⟩ := List.mem_map.mp listed
          cases same
          obtain ⟨all, onward, ends⟩ := ih _ there inside
          exact ⟨all, .field plain there onward, ends⟩
  | case5 names items ih =>
      rw [inlineSchemaRefs] at exposed
      cases exposed with
      | here => cases refers
      | item listed inside =>
          rw [List.getElem?_map, Option.map_eq_some_iff] at listed
          obtain ⟨child, there, rfl⟩ := listed
          obtain ⟨all, onward, ends⟩ := ih child (List.mem_of_getElem? there) inside
          exact ⟨all, .item there onward, ends⟩
  | case6 names value unobject unarray =>
      rw [inlineSchemaRefs] at exposed
      · cases exposed with
        | here =>
            cases last with
            | object fields => exact absurd rfl (unobject fields)
            | _ => cases refers
        | field => exact absurd rfl (unobject _)
        | item => exact absurd rfl (unarray _)
      · exact unobject
      · exact unarray

/-- The names that lead to a position of the expansion lead to the name that is referred to there,
if they lead to whatever the value refers to. -/
theorem Expansion.leads {all : List String} (expansion : Expansion defs names value path all last)
    (refers : refersTo last = some name)
    (lead : ∀ above ∈ names, ∀ path inner other, Inside value path inner →
      refersTo inner = some other → Relation.TransGen (Mentions defs) above other) :
    ∀ above ∈ all, Relation.TransGen (Mentions defs) above name := by
  induction expansion with
  | @expand names all value definition last path next refersNext fresh defined onward ih =>
      refine ih refers fun above held path inner other inside refersOther => ?_
      have mentions : Mentions defs next other := ⟨_, path, inner, defined, inside, refersOther⟩
      rcases List.mem_append.mp held with before | here
      · exact (lead above before [] value next (.here value) refersNext).tail mentions
      · rw [List.mem_singleton.mp here]
        exact .single mentions
  | keep refersKept stays inside => exact fun above held => lead above held _ _ name inside refers
  | here plain =>
      rw [plain] at refers
      cases refers
  | field plain listed onward ih =>
      refine ih refers fun above held path inner other inside refersOther => ?_
      exact lead above held _ inner other (.field trivial listed inside) refersOther
  | item listed onward ih =>
      refine ih refers fun above held path inner other inside refersOther => ?_
      exact lead above held _ inner other (.item listed inside) refersOther

/-- Nothing defined is referred to after inlining when no definition leads to itself. -/
theorem exposed_undefined (schemas : Schemas defs) (acyclic : Acyclic defs)
    (exposed : Exposed (inlineSchemaRefs defs [] value) path last)
    (refers : refersTo last = some name) : defs.lookup name = none := by
  obtain ⟨all, expansion, ends⟩ := exposed_reference schemas exposed refers
  refine ends.resolve_left fun held => ?_
  have leads := expansion.leads refers fun above nothing => absurd nothing List.not_mem_nil
  exact acyclic name (leads name held)

/-- **Inlining is complete outside of the references that it leaves.** -/
theorem inlineSchemaRefs_complete (defs : List (String × JsonValue)) (schemas : Schemas defs) :
    (∀ value path last name, Exposed (inlineSchemaRefs defs [] value) path last →
      refersTo last = some name →
        defs.lookup name = none ∨ ∃ all, Expansion defs [] value path all last ∧ name ∈ all) ∧
    (Acyclic defs → ∀ value path last name, Exposed (inlineSchemaRefs defs [] value) path last →
      refersTo last = some name → defs.lookup name = none) ∧
    (Acyclic defs → ∀ tool : Tool, tool.inputSchema.lookup "definitions" = some (.object defs) →
      (∃ fields, inlineSchemaRefs defs []
        (.object (tool.inputSchema.filter fun field => field.1 ≠ "definitions")) =
          .object fields) →
      ∀ path last name, Exposed (.object (selfContained tool).inputSchema) path last →
        refersTo last = some name → defs.lookup name = none) := by
  refine ⟨?_, ?_, ?_⟩
  · intro value path last name exposed refers
    obtain ⟨all, expansion, ends⟩ := exposed_reference schemas exposed refers
    rcases ends with held | missing
    · exact .inr ⟨all, expansion, held⟩
    · exact .inl missing
  · exact fun acyclic value path last name exposed refers =>
      exposed_undefined schemas acyclic exposed refers
  · rintro acyclic tool given ⟨fields, inlined⟩ path last name exposed refers
    have contained : (selfContained tool).inputSchema = fields := by
      rw [selfContained, given]
      dsimp only
      rw [inlined]
    rw [contained, ← inlined] at exposed
    exact exposed_undefined schemas acyclic exposed refers

/-- A definition that refers to itself keeps the reference, which its own name leads to. -/
theorem inlineSchemaRefs_complete_cycle :
    ∃ all, Expansion [("A", .object [("b", .object [("$ref", .string "#/definitions/A")])])] []
      (.object [("$ref", .string "#/definitions/A")]) [.field "b"] all
      (.object [("$ref", .string "#/definitions/A")]) ∧ "A" ∈ all := by
  let fields : List (String × JsonValue) := [("$ref", .string "#/definitions/A")]
  let defs : List (String × JsonValue) := [("A", .object [("b", .object fields)])]
  have refers : definitionName fields = some "A" := by decide
  have schemas : Schemas defs := by
    intro name text found
    cases List.mem_singleton.mp (mem_of_lookup found)
  have stays : inlineSchemaRefs defs ["A"] (.object fields) = .object fields :=
    inlineSchemaRefs_stays refers (.inl (List.mem_singleton_self _))
  have inlined : inlineSchemaRefs defs [] (.object fields) = .object [("b", .object fields)] := by
    rw [inlineSchemaRefs_expand refers List.not_mem_nil rfl, inlineSchemaRefs_plain rfl]
    exact congrArg (fun value => JsonValue.object [("b", value)]) stays
  have exposed : Exposed (inlineSchemaRefs defs [] (.object fields)) [.field "b"]
      (.object fields) := by
    rw [inlined]
    exact .field rfl (List.mem_singleton_self _) (.here _)
  exact ((inlineSchemaRefs_complete defs schemas).1 _ _ _ "A" exposed refers).resolve_left
    (Option.some_ne_none _)

/-- Definitions without members lead nowhere. -/
theorem acyclic_of_leaves (leaves : ∀ definition ∈ defs, ∀ path value,
    Inside definition.2 path value → refersTo value = none) : Acyclic defs := by
  intro name leads
  obtain ⟨other, ⟨definition, path, value, defined, inside, refers⟩, -⟩ :=
    Relation.TransGen.head'_iff.mp leads
  rw [leaves _ (mem_of_lookup defined) path value inside] at refers
  cases refers

/-- An object that is kept keeps references to definitions inside of it; a tool whose schema refers
to a definition that is no object is kept; and a bare text as a definition makes a reference. -/
theorem inlineSchemaRefs_incomplete :
    (∃ defs value path last, Schemas defs ∧ Acyclic defs ∧
      Inside (inlineSchemaRefs defs [] value) path last ∧ refersTo last = some "A" ∧
      defs.lookup "A" ≠ none ∧
      ∀ all, Expansion defs [] value path all last → "A" ∉ all) ∧
    (∃ defs tool, Schemas defs ∧ Acyclic defs ∧
      tool.inputSchema.lookup "definitions" = some (.object defs) ∧ selfContained tool = tool ∧
      refersTo (.object tool.inputSchema) = some "A" ∧ defs.lookup "A" ≠ none) ∧
    ∃ defs value, Acyclic defs ∧ refersTo (inlineSchemaRefs defs [] value) = some "B" ∧
      defs.lookup "B" ≠ none := by
  have truth : Acyclic [("A", .bool true)] := by
    apply acyclic_of_leaves
    intro definition listed path value inside
    rw [List.mem_singleton.mp listed] at inside
    cases inside
    rfl
  have schemas : Schemas [("A", .bool true)] := by
    intro name text found
    cases List.mem_singleton.mp (mem_of_lookup found)
  refine ⟨?_, ?_, ?_⟩
  · let inner : JsonValue := .object [("$ref", .string "#/definitions/A")]
    let fields : List (String × JsonValue) :=
      [("$ref", .string "#/definitions/Missing"), ("items", inner)]
    have refers : definitionName fields = some "Missing" := by decide
    have missing : List.lookup "Missing" [("A", JsonValue.bool true)] = none := rfl
    refine ⟨[("A", .bool true)], .object fields, [.field "items"], inner, schemas, truth, ?_,
      by decide, Option.some_ne_none _, ?_⟩
    · rw [inlineSchemaRefs_stays refers (.inr missing)]
      exact .field trivial (List.mem_cons_of_mem _ List.mem_cons_self) (.here inner)
    · intro all expansion
      cases expansion with
      | expand refersNext fresh defined onward =>
          cases refersNext.symm.trans refers
          cases missing.symm.trans defined
      | keep refersKept stays inside => exact List.not_mem_nil
      | field plain => cases plain.symm.trans refers
  · let schema : List (String × JsonValue) := [("$ref", .string "#/definitions/A")]
    let tool : Tool := ⟨"echo", "", ("definitions", .object [("A", .bool true)]) :: schema⟩
    have given : tool.inputSchema.lookup "definitions" = some (.object [("A", .bool true)]) := rfl
    have kept : (tool.inputSchema.filter fun field => field.1 ≠ "definitions") = schema := rfl
    have refers : definitionName schema = some "A" := by decide
    have expanded : inlineSchemaRefs [("A", .bool true)] [] (.object schema) = .bool true := by
      rw [inlineSchemaRefs_expand refers List.not_mem_nil rfl, inlineSchemaRefs]
      · intro fields same
        cases same
      · intro items same
        cases same
    refine ⟨[("A", .bool true)], tool, schemas, truth, given, ?_, by decide, Option.some_ne_none _⟩
    rw [selfContained, given]
    dsimp only
    rw [kept, expanded]
  · let defs : List (String × JsonValue) := [("A", .string "#/definitions/B"), ("B", .bool true)]
    let fields : List (String × JsonValue) := [("$ref", .string "#/definitions/A")]
    have refers : definitionName fields = some "A" := by decide
    have expanded : inlineSchemaRefs defs [] (.object fields) = .string "#/definitions/B" := by
      rw [inlineSchemaRefs_expand refers List.not_mem_nil rfl, inlineSchemaRefs]
      · intro fields same
        cases same
      · intro items same
        cases same
    refine ⟨defs, .object [("$ref", .object fields)], ?_, ?_, Option.some_ne_none _⟩
    · apply acyclic_of_leaves
      intro definition listed path value inside
      rcases List.mem_pair.mp listed with rfl | rfl
      · cases inside
        rfl
      · cases inside
        rfl
    · rw [inlineSchemaRefs_plain (by decide), List.map_singleton, expanded]
      decide

end Exocortex
