/-
# What is written as JSON is read back

A graph is an object of two arrays, and so on down to strings and doubles.  Writing and
reading take it apart in the same way, so at each type there is one equation, which the
next type up uses:

    position                                          written and read if finite
    choice, endpoint, connection                      always
    content, under `data` and beside its kind         always
    block                                             if its position is finite
    graph                                             if all of its blocks are

A double that is not finite is written as `null`, and no double is read from that.  So a
graph comes back exactly if it is finite, and then it is the graph that was written
(`read_written`).

Two facts about objects are behind all this.  Where no key is repeated, the value under a
key is the one written there (`soleField?_of_mem`), and a key that was left out is missed
(`optionalField?_of_not_mem`); the variable of a block is the only field that may be.
-/
import Parley.Graph.Codec

namespace Parley

open Json

/-- Both coordinates are finite. -/
def Position.isFinite (p : Position) : Bool := p.x.isFinite && p.y.isFinite

/-- All blocks lie at finite positions. -/
def Graph.isFinite (g : Graph) : Bool := g.blocks.all (·.position.isFinite)

/-! ## Objects without repeated keys

Reading an object asks for each key how often it is there.  Where the keys differ the answer
is known from the list that was written, so none of the readers below has to be unfolded down
to the search for a key. -/

namespace Json

variable {fields : List (String × Value)} {key : String} {v : Value}

theorem filter_key_of_mem (hkeys : (fields.map (·.1)).Nodup) (h : (key, v) ∈ fields) :
    fields.filter (·.1 == key) = [(key, v)] := by
  induction fields with
  | nil => cases h
  | cons f fields ih =>
      obtain ⟨hnew, hkeys⟩ := List.nodup_cons.mp hkeys
      rcases List.mem_cons.mp h with rfl | h
      · rw [List.filter_cons_of_pos (by exact beq_self_eq_true key)]
        refine congrArg _ (List.filter_eq_nil_iff.mpr fun f hf hkey => hnew ?_)
        exact List.mem_map.mpr ⟨f, hf, beq_iff_eq.mp hkey⟩
      · rw [List.filter_cons_of_neg, ih hkeys h]
        intro hkey
        exact hnew (List.mem_map.mpr ⟨(key, v), h, (beq_iff_eq.mp hkey).symm⟩)

theorem soleField?_of_mem (hkeys : (fields.map (·.1)).Nodup) (h : (key, v) ∈ fields) :
    soleField? fields key = some v := by
  rw [soleField?, filter_key_of_mem hkeys h]

theorem optionalField?_of_mem (hkeys : (fields.map (·.1)).Nodup) (h : (key, v) ∈ fields) :
    optionalField? fields key = some (some v) := by
  rw [optionalField?, filter_key_of_mem hkeys h]

theorem optionalField?_of_not_mem (h : key ∉ fields.map (·.1)) :
    optionalField? fields key = some none := by
  rw [optionalField?, List.filter_eq_nil_iff.mpr]
  intro f hf hkey
  exact h (List.mem_map.mpr ⟨f, hf, beq_iff_eq.mp hkey⟩)

/-- An object is the record of its keys. -/
theorem record?_object {keys : List String} (hkeys : keys.Nodup) (h : fields.map (·.1) = keys) :
    record? keys (.object fields) = some (fields.map (·.2)) := by
  subst h
  have hall : ∀ fs : List (String × Value), (∀ f ∈ fs, f ∈ fields) →
      (fs.map (·.1)).mapM (soleField? fields) = some (fs.map (·.2)) := by
    intro fs hfs
    induction fs with
    | nil => rfl
    | cons f fs ih =>
        rw [List.map_cons, List.mapM_cons, soleField?_of_mem hkeys (hfs f List.mem_cons_self),
          ih fun f' hf' => hfs f' (List.mem_cons_of_mem _ hf')]
        rfl
  exact hall fields fun _ hf => hf

end Json

theorem mapM_map_of_read {α : Type} {write : α → Value} {read : Value → Option α}
    (good : α → Bool) (h : ∀ x, read (write x) = if good x then some x else none)
    (xs : List α) : (xs.map write).mapM read = if xs.all good then some xs else none := by
  induction xs with
  | nil => rfl
  | cons x xs ih =>
      rw [List.map_cons, List.mapM_cons, h, ih, List.all_cons]
      cases good x <;> cases xs.all good <;> rfl

theorem mapM_map_of_read_all {α : Type} {write : α → Value} {read : Value → Option α}
    (h : ∀ x, read (write x) = some x) (xs : List α) : (xs.map write).mapM read = some xs := by
  rw [mapM_map_of_read (fun _ => true) h, if_pos]
  exact List.all_eq_true.mpr fun _ _ => rfl

/-! ## Positions, choices and connections

At the bottom are doubles and strings.  A finite double is read as it was written, and a
string always is; what is made of them has its own keys, so each reader finds what its writer
put there. -/

theorem Position.ofJson?_toJson (p : Position) :
    ofJson? p.toJson = if p.isFinite then some p else none := by
  have hrecord : record? ["x", "y"] p.toJson = some [.ofFloat p.x, .ofFloat p.y] :=
    record?_object (by decide) rfl
  rw [ofJson?, hrecord, isFinite]
  dsimp only
  unfold Value.ofFloat
  cases p.x.isFinite <;> cases p.y.isFinite <;> rfl

theorem Choice.ofJson?_toJson (c : Choice) : ofJson? c.toJson = some c := by
  have hrecord : record? ["id", "text"] c.toJson = some [.string c.id, .string c.label] :=
    record?_object (by decide) rfl
  rw [ofJson?, hrecord]
  rfl

theorem Endpoint.ofJson?_toJson (e : Endpoint) : ofJson? e.toJson = some e := by
  have hrecord : record? ["blockId", "handleId"] e.toJson =
      some [.string e.block, .string e.handle] :=
    record?_object (by decide) rfl
  rw [ofJson?, hrecord]
  rfl

theorem Connection.ofJson?_toJson (c : Connection) : ofJson? c.toJson = some c := by
  have hrecord : record? ["id", "source", "target"] c.toJson =
      some [.string c.id, c.source.toJson, c.target.toJson] :=
    record?_object (by decide) rfl
  rw [ofJson?, hrecord]
  simp only [Endpoint.ofJson?_toJson]
  rfl

/-! ## Blocks

The data of a block stand beside its kind, and which keys are among them depends on the kind.
The variable is written only if it is set, and a key that is missing is read as one that is
not. -/

namespace Block

namespace Content

variable {fields : List (String × Value)}

theorem text?_of_mem {key s : String} (hkeys : (fields.map (·.1)).Nodup)
    (h : (key, .string s) ∈ fields) : text? fields key = some s := by
  rw [text?, soleField?_of_mem hkeys h]
  rfl

/-- The key of a variable stands there if the variable is set. -/
theorem readBinds?_eq {binds : Option String} (hkeys : (fields.map (·.1)).Nodup)
    (hset : ∀ b, binds = some b → ("variableName", .string b) ∈ fields)
    (hunset : binds = none → "variableName" ∉ fields.map (·.1)) :
    readBinds? fields = some binds := by
  cases binds with
  | none =>
      rw [readBinds?, optionalField?_of_not_mem (hunset rfl)]
      rfl
  | some b =>
      rw [readBinds?, optionalField?_of_mem hkeys (hset b rfl)]
      rfl

theorem nodup_keys_dataFields (c : Content) : (c.dataFields.map (·.1)).Nodup := by
  cases c with
  | question m b | buttons m b cs => cases b <;> simp [dataFields, bindsFields]
  | welcome | message | goodbye | field => simp [dataFields]

theorem ofFields?_dataFields (c : Content) : ofFields? c.dataFields c.kind = some c := by
  have hkeys := nodup_keys_dataFields c
  have hmessage : ∀ m, ("message", .string m) ∈ c.dataFields →
      text? c.dataFields "message" = some m := fun m hm => text?_of_mem hkeys hm
  cases c with
  | welcome m | message m | goodbye m =>
      rw [kind, ofFields?, hmessage m List.mem_cons_self]
      rfl
  | field b =>
      rw [kind, ofFields?, text?_of_mem hkeys List.mem_cons_self]
      rfl
  | question m b =>
      have hbinds : readBinds? (question m b).dataFields = some b :=
        readBinds?_eq hkeys (by rintro b rfl; simp [dataFields, bindsFields])
          (by rintro rfl; simp [dataFields, bindsFields])
      rw [kind, ofFields?, hmessage m List.mem_cons_self, hbinds]
      rfl
  | buttons m b cs =>
      have hbinds : readBinds? (buttons m b cs).dataFields = some b :=
        readBinds?_eq hkeys (by rintro b rfl; simp [dataFields, bindsFields])
          (by rintro rfl; simp [dataFields, bindsFields])
      have hoptions : soleField? (buttons m b cs).dataFields "options" =
          some (.array (cs.map Choice.toJson)) :=
        soleField?_of_mem hkeys (by simp [dataFields])
      rw [kind, ofFields?, hoptions, hmessage m List.mem_cons_self, hbinds]
      show (do return Content.buttons m b (← (cs.map Choice.toJson).mapM Choice.ofJson?)) = _
      rw [mapM_map_of_read_all Choice.ofJson?_toJson]
      rfl

end Content

theorem ofBlockJson?_name (k : Kind) : Kind.ofBlockJson? (.string k.name) = some k :=
  Kind.ofExactName?_name k

theorem ofJson?_toJson (b : Block) :
    ofJson? b.toJson = if b.position.isFinite then some b else none := by
  let fields : List (String × Value) := [("id", .string b.id), ("position", b.position.toJson),
    ("type", .string b.kind.name), ("data", .object b.content.dataFields)]
  have hread : ∀ {key : String} {v : Value}, (key, v) ∈ fields →
      soleField? fields key = some v := fun h => soleField?_of_mem (by simp [fields]) h
  have hid : soleField? fields "id" = some (.string b.id) := hread (by simp [fields])
  have hposition : soleField? fields "position" = some b.position.toJson :=
    hread (by simp [fields])
  have htype : soleField? fields "type" = some (.string b.kind.name) := hread (by simp [fields])
  have hdata : soleField? fields "data" = some (.object b.content.dataFields) :=
    hread (by simp [fields])
  have hcontent : Content.ofData? b.kind (.object b.content.dataFields) = some b.content :=
    Content.ofFields?_dataFields b.content
  show (do
    let id ← (← soleField? fields "id").string?
    let position ← Position.ofJson? (← soleField? fields "position")
    let kind ← Kind.ofBlockJson? (← soleField? fields "type")
    return (⟨id, position, ← Content.ofData? kind (← soleField? fields "data")⟩ : Block)) = _
  rw [hid, hposition, htype, hdata]
  simp only [Option.bind_eq_bind, Option.bind_some, Value.string?, Position.ofJson?_toJson,
    ofBlockJson?_name, hcontent]
  cases b.position.isFinite <;> rfl

/-! ### How deep blocks nest -/

theorem readable_dataFields (c : Content) (depth : Nat) :
    (Value.object c.dataFields).readable (depth + 3) := by
  have hchoices : ∀ cs : List Choice,
      Value.readableItems (depth + 1) (cs.map Choice.toJson) := by
    intro cs
    induction cs with
    | nil => simp [Value.readableItems]
    | cons c cs ih =>
        simp [Value.readableItems, Value.readable, Value.readableFields, Choice.toJson, ih]
  cases c with
  | question m b =>
      cases b <;>
        simp [Content.dataFields, bindsFields, Value.readable, Value.readableFields]
  | buttons m b cs =>
      cases b <;>
        simp [Content.dataFields, bindsFields, Value.readable, Value.readableFields, hchoices]
  | welcome | message | goodbye | field =>
      simp [Content.dataFields, Value.readable, Value.readableFields]

theorem legible_toJson (b : Block) : legible b.toJson := by
  have htext : ∀ s, (Value.string s).readable fieldDepth := fun s => by simp [Value.readable]
  have hdata : (Value.object b.content.dataFields).readable fieldDepth :=
    readable_dataFields b.content 121
  simp only [toJson, legible, List.all_cons, List.all_nil, htext, hdata, Bool.or_true,
    beq_self_eq_true, Bool.true_or, Bool.and_self]

end Block

/-! ## Graphs -/

namespace Graph

theorem record?_toJson (g : Graph) : record? ["blocks", "connections"] g.toJson =
    some [.array (g.blocks.map Block.toJson), .array (g.connections.map Connection.toJson)] :=
  record?_object (by decide) rfl

theorem ofJson?_toJson (g : Graph) :
    ofJson? g.toJson = if g.isFinite then some g else none := by
  have hblocks : (g.blocks.map Block.toJson).mapM Block.ofJson? =
      if g.isFinite then some g.blocks else none :=
    mapM_map_of_read _ Block.ofJson?_toJson g.blocks
  have hconnections : (g.connections.map Connection.toJson).mapM Connection.ofJson? =
      some g.connections :=
    mapM_map_of_read_all Connection.ofJson?_toJson g.connections
  rw [ofJson?, record?_toJson]
  simp only [Value.items?, Option.bind_eq_bind, Option.bind_some, hblocks, hconnections]
  cases g.isFinite <;> rfl

theorem legible_toJson (g : Graph) : legible g.toJson := by
  rw [legible, record?_toJson]
  exact List.all_eq_true.mpr (List.forall_mem_map.mpr fun b _ => b.legible_toJson)

/-- What is read of a text is what is read of the value in it. -/
theorem ofText?_of_written {g : Graph} {text : String} (h : Value.ofText? text = some g.toJson) :
    ofText? text = ofJson? g.toJson := by
  have hguard : (guard (legible g.toJson = true) : Option Unit) = some () :=
    if_pos (legible_toJson g)
  rw [ofText?, h]
  show (guard (legible g.toJson = true) >>= fun _ => ofJson? g.toJson) = _
  rw [hguard]
  rfl

/-- **A graph that is finite is read back from what was written, and is the only one written
like that.**  Nothing is read back of one that is not.  A text in which the value is found
that was written is a text of the graph. -/
theorem read_written (g : Graph) (hfinite : g.isFinite) :
    ofJson? g.toJson = some g ∧
      (∀ text, Value.ofText? text = some g.toJson → ofText? text = some g) ∧
      ∀ g' : Graph, g'.toJson = g.toJson → g' = g := by
  have hback : ofJson? g.toJson = some g := by rw [ofJson?_toJson, if_pos hfinite]
  refine ⟨hback, ?_, ?_⟩
  · intro text htext
    rw [ofText?_of_written htext, hback]
  · intro g' hsame
    -- what is read of `g'` is itself or nothing
    rw [← hsame, ofJson?_toJson] at hback
    split at hback
    · exact Option.some.inj hback
    · cases hback

/-- Two blocks have one id, variables are set and unset, one block offers nothing and one the
same id twice, and a connection dangles. -/
def motley : Graph where
  blocks := [⟨"a", ⟨0, -12.5⟩, .question "Who?" none⟩, ⟨"a", ⟨1e300, 0.1⟩, .question "" (some "who")⟩,
    ⟨"b", ⟨7, 8⟩, .buttons "None" (some "pick") []⟩,
    ⟨"", ⟨7, 8⟩, .buttons "Or?" none [⟨"x", "Yes"⟩, ⟨"x", ""⟩]⟩, ⟨"f", ⟨5, 5⟩, .field "name"⟩]
  connections := [⟨"c", ⟨"ghost", "output"⟩, ⟨"a", "input"⟩⟩, ⟨"c", ⟨"b", "x"⟩, ⟨"f", "input"⟩⟩]

theorem read_written_motley :
    let bare : Graph := ⟨[], []⟩
    let text := "\x7b\"blocks\":[],\"connections\":[]\x7d"
    (motley.isFinite ∧ ofJson? motley.toJson = some motley ∧
        ∀ g : Graph, g.toJson = motley.toJson → g = motley) ∧
      bare.isFinite ∧ Value.ofText? text = some bare.toJson ∧ ofText? text = some bare := by
  intro bare text
  have hmotley : motley.isFinite := by decide +kernel
  have htext : Value.ofText? text = some bare.toJson := by subst text; subst bare; rfl
  obtain ⟨hback, -, honly⟩ := read_written motley hmotley
  exact ⟨⟨hmotley, hback, honly⟩, rfl, htext, (read_written bare rfl).2.1 _ htext⟩

end Graph

end Parley
