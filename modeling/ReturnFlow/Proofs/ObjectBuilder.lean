import Mathlib.Data.List.Perm.Basic
import ReturnFlow.Proofs.Chain
import ReturnFlow.Proofs.Lookup

/-!
Calls on a JSON object builder.

* `Rule.JsonBuilder.follows_write`: a call that sets a member leads each object on along every
  possible key, or leaves it as it is if no key is known. So a chain of such calls gives the objects
  that come from one of those at its start by a choice of keys (`Rule.JsonBuilder.Chosen`), with the
  last write winning.
* `Rule.JsonBuilder.mem_withoutMembers`: a call that removes a member does not lead the objects on
  along the possible keys: it takes all of them away at once.
-/

namespace ReturnFlow

namespace Rule.JsonBuilder

/-! ## The objects of an element -/

/-- The builder may hold this object: it is one of its JSON values, or none of them is an object and
this one is empty. -/
def Holds (e : Element) (o : Json) : Prop :=
  o ∈ e.jsonValues ∧ o.isObject = true ∨
    (∀ j ∈ e.jsonValues, j.isObject = false) ∧ o = .emptyObject

theorem mem_objects {e : Element} {o : Json} : o ∈ objects (some e) ↔ Holds e o := by
  have hnil : e.jsonValues.filter Json.isObject = [] ↔ ∀ j ∈ e.jsonValues, j.isObject = false := by
    simp [List.filter_eq_nil_iff]
  unfold objects initial Holds
  rw [← hnil, ← List.mem_filter]
  split
  · next h => simp_all
  · next h => exact ⟨Or.inl, fun ho => ho.elim id fun hempty => absurd hempty.1 h⟩

theorem objects_ne_nil (e : Element) : objects (some e) ≠ [] := by
  unfold objects initial
  split
  · simp
  · assumption

theorem isObject_of_mem_objects {e : Element} {o : Json} (ho : o ∈ objects (some e)) :
    o.isObject = true := by
  rcases mem_objects.1 ho with ⟨-, hobject⟩ | ⟨-, rfl⟩
  · exact hobject
  · rfl

theorem mem_jsonValues_ofJson {type : String} {js : List Json} {j : Json} :
    j ∈ (ofJson type js).jsonValues ↔ j ∈ js := by
  simp [Element.mem_jsonValues, ofJson, Element.ofValues]

/-- An element made of objects may be each of them and nothing else. -/
theorem mem_objects_ofJson {type : String} {os : List Json} (hos : os ≠ [])
    (hobjects : ∀ o ∈ os, o.isObject = true) {o : Json} :
    o ∈ objects (some (ofJson type os)) ↔ o ∈ os := by
  rw [mem_objects, Holds]
  simp only [mem_jsonValues_ofJson]
  constructor
  · rintro (⟨ho, -⟩ | ⟨hnone, -⟩)
    · exact ho
    · obtain ⟨o', ho'⟩ := List.exists_mem_of_ne_nil os hos
      exact absurd (hobjects o' ho') (by simp [hnone o' ho'])
  · intro ho
    exact Or.inl ⟨ho, hobjects o ho⟩

theorem jsonValues_ofJson_congr {type type' : String} {js js' : List Json}
    (h : ∀ j, j ∈ js ↔ j ∈ js') :
    (ofJson type js).jsonValues = (ofJson type' js').jsonValues := by
  have hvalues : (ofJson type js).values = (ofJson type' js').values := by
    refine Sorted.ofList_eq_ofList_iff.2 fun v => ?_
    simp only [List.mem_map, h]
  rw [Element.jsonValues, hvalues, Element.jsonValues]

/-! ## One call -/

/-- The methods of the object builder. -/
def IsBuilder (m : Method) : Prop :=
  Descriptor.apiName? m.owner = some "json/JsonObjectBuilder"

/-- A call that gives some objects is answered with them. -/
theorem call?_of_objectStep? {m : Method} (hm : IsBuilder m) {e : Element} {args : List Element}
    {js : List Json} (hstep : objectStep? m.name (objects (some e)) args = some js)
    (hjs : js ≠ []) :
    ∃ k, Rule.call? ⟨m, some e, args⟩ = some k ∧ k.result = ofJson m.returnType js := by
  have hcall : Rule.call? ⟨m, some e, args⟩ =
      (objectStep? m.name (objects (some e)) args).map (finish ⟨m, some e, args⟩ e) := by
    rw [Rule.call?, hm]
    rfl
  rw [hcall, hstep]
  refine ⟨_, rfl, ?_⟩
  rw [finish, List.isEmpty_eq_false_iff.2 hjs]
  dsimp only
  split <;> rfl

/-- What a builder call answers: objects, at least one of them. -/
def Made (type : String) (e : Element) : Prop :=
  ∃ os : List Json, os ≠ [] ∧ (∀ o ∈ os, o.isObject = true) ∧ e = ofJson type os

/-! ## Setting members -/

/-- A call that sets a member, with its key and its value. -/
inductive Writes : Method × List Element → Element × Element → Prop
  | add {m : Method} (hm : IsBuilder m) (hname : m.name = "add") (key value : Element)
      (rest : List Element) : Writes (m, key :: value :: rest) (key, value)
  | addNull {m : Method} (hm : IsBuilder m) (hname : m.name = "addNull") (key : Element)
      (rest : List Element) : Writes (m, key :: rest) (key, nullElement)

/-- What an object may become: it gets the member under one of the possible keys, or stays as it is
if no key is known. -/
def Sets (write : Element × Element) (o o' : Json) : Prop :=
  write.1.strings = [] ∧ o' = o ∨ ∃ k ∈ write.1.strings, o' = o.withMember k write.2

theorem mem_withMembers {os : List Json} {key value : Element} {j : Json} :
    j ∈ withMembers os key value ↔ ∃ o ∈ os, Sets (key, value) o j := by
  unfold withMembers Sets
  split
  · next hnil => simp [hnil]
  · next hne =>
    have hne : key.strings ≠ [] := hne
    simp [hne, eq_comm]

/-- An object becomes something, whatever is known of the key. -/
theorem exists_sets (write : Element × Element) (o : Json) : ∃ o', Sets write o o' := by
  cases hkeys : write.1.strings with
  | nil => exact ⟨o, Or.inl ⟨hkeys, rfl⟩⟩
  | cons k keys => exact ⟨_, Or.inr ⟨k, by rw [hkeys]; exact List.mem_cons_self, rfl⟩⟩

theorem isObject_of_sets {write : Element × Element} {o o' : Json} (h : Sets write o o') :
    o'.isObject = o.isObject := by
  rcases h with ⟨-, rfl⟩ | ⟨k, -, rfl⟩
  · rfl
  · exact Json.isObject_withMember k write.2 o

theorem Writes.isBuilder {c : Method × List Element} {write : Element × Element}
    (h : Writes c write) : IsBuilder c.1 := by
  cases h <;> assumption

theorem Writes.objectStep? {c : Method × List Element} {write : Element × Element}
    (h : Writes c write) (os : List Json) :
    objectStep? c.1.name os c.2 = some (withMembers os write.1 write.2) := by
  cases h with
  | add hm hname key value rest => simp only [hname, JsonBuilder.objectStep?]
  | addNull hm hname key rest => simp only [hname, JsonBuilder.objectStep?]

/-- A call that sets a member leads each object on by itself. -/
theorem follows_write {c : Method × List Element} {write : Element × Element}
    (h : Writes c write) : Follows (fun e => objects (some e)) Made (Sets write) c := by
  intro e
  let os := withMembers (objects (some e)) write.1 write.2
  have hos : os ≠ [] := by
    obtain ⟨o, ho⟩ := List.exists_mem_of_ne_nil _ (objects_ne_nil e)
    obtain ⟨o', ho'⟩ := exists_sets write o
    exact List.ne_nil_of_mem (mem_withMembers.2 ⟨o, ho, ho'⟩)
  have hobjects : ∀ o ∈ os, o.isObject = true := by
    intro o' ho'
    obtain ⟨o, ho, hsets⟩ := mem_withMembers.1 ho'
    rw [isObject_of_sets hsets]
    exact isObject_of_mem_objects ho
  obtain ⟨k, hk, hresult⟩ := call?_of_objectStep? h.isBuilder (h.objectStep? _) hos
  refine ⟨k, hk, ⟨os, hos, hobjects, hresult⟩, fun o' => ?_⟩
  rw [hresult, mem_objects_ofJson hos hobjects]
  exact mem_withMembers

/-! ## Chains of writes -/

/-- One possible key for each write of which a key is known, in order; the other writes are left
out. -/
def Chosen (writes : List (Element × Element)) (chosen : List (String × Element)) : Prop :=
  List.Forall₂ (fun write w => w.1 ∈ write.1.strings ∧ w.2 = write.2)
    (writes.filter fun write => write.1.strings ≠ []) chosen

theorem chosen_nil_iff {chosen : List (String × Element)} : Chosen [] chosen ↔ chosen = [] := by
  simp [Chosen]

theorem chosen_cons_of_nil {key value : Element} (hkey : key.strings = [])
    {writes : List (Element × Element)} {chosen : List (String × Element)} :
    Chosen ((key, value) :: writes) chosen ↔ Chosen writes chosen := by
  simp [Chosen, hkey]

theorem chosen_cons_of_ne_nil {key value : Element} (hkey : key.strings ≠ [])
    {writes : List (Element × Element)} {chosen : List (String × Element)} :
    Chosen ((key, value) :: writes) chosen ↔
      ∃ k ∈ key.strings, ∃ rest, Chosen writes rest ∧ chosen = (k, value) :: rest := by
  unfold Chosen
  rw [List.filter_cons_of_pos (by simpa using hkey), List.forall₂_cons_left_iff]
  constructor
  · rintro ⟨⟨k, v⟩, rest, ⟨hk, rfl⟩, hrest, rfl⟩
    exact ⟨k, hk, rest, hrest, rfl⟩
  · rintro ⟨k, hk, rest, hrest, rfl⟩
    exact ⟨(k, value), rest, ⟨hk, rfl⟩, hrest, rfl⟩

/-- What writes may make of an object are the choices of their keys. -/
theorem along_sets_iff {writes : List (Element × Element)} {o j : Json} :
    Along Sets writes o j ↔ ∃ chosen, Chosen writes chosen ∧ j = o.writeAll chosen := by
  induction writes generalizing o with
  | nil => simp [chosen_nil_iff, Json.writeAll]
  | cons write writes ih =>
    obtain ⟨key, value⟩ := write
    rw [along_cons_iff]
    by_cases hkey : key.strings = []
    · simp [Sets, hkey, chosen_cons_of_nil hkey, ih]
    · simp only [Sets, hkey, false_and, false_or, chosen_cons_of_ne_nil hkey, ih]
      constructor
      · rintro ⟨_, ⟨k, hk, rfl⟩, chosen, hchosen, rfl⟩
        exact ⟨(k, value) :: chosen, ⟨k, hk, chosen, hchosen, rfl⟩, rfl⟩
      · rintro ⟨_, ⟨k, hk, chosen, hchosen, rfl⟩, rfl⟩
        exact ⟨_, ⟨k, hk, rfl⟩, chosen, hchosen, rfl⟩

/-- Writes in another order have the same choices in another order. -/
theorem Chosen.perm {writes writes' : List (Element × Element)} {chosen : List (String × Element)}
    (h : Chosen writes chosen) (hperm : writes'.Perm writes) :
    ∃ chosen', Chosen writes' chosen' ∧ chosen'.Perm chosen :=
  List.perm_comp_forall₂ (hperm.filter _) h

/-- No two writes have a possible key in common. -/
def Apart (writes : List (Element × Element)) : Prop :=
  writes.Pairwise fun write write' => List.Disjoint write.1.strings write'.1.strings

theorem Chosen.exists_mem {writes : List (Element × Element)} {chosen : List (String × Element)}
    (h : Chosen writes chosen) {w : String × Element} (hw : w ∈ chosen) :
    ∃ write ∈ writes, w.1 ∈ write.1.strings := by
  induction writes generalizing chosen with
  | nil =>
    rw [chosen_nil_iff.1 h] at hw
    cases hw
  | cons write writes ih =>
    obtain ⟨key, value⟩ := write
    by_cases hkey : key.strings = []
    · obtain ⟨write, hwrite, hmem⟩ := ih ((chosen_cons_of_nil hkey).1 h) hw
      exact ⟨write, by simp [hwrite], hmem⟩
    · obtain ⟨k, hk, rest, hrest, rfl⟩ := (chosen_cons_of_ne_nil hkey).1 h
      rcases List.mem_cons.1 hw with rfl | hw
      · exact ⟨(key, value), by simp, hk⟩
      · obtain ⟨write, hwrite, hmem⟩ := ih hrest hw
        exact ⟨write, by simp [hwrite], hmem⟩

/-- Writes that are apart write to different keys, whichever are chosen. -/
theorem Chosen.keys_ne {writes : List (Element × Element)} {chosen : List (String × Element)}
    (h : Chosen writes chosen) (hapart : Apart writes) :
    chosen.Pairwise fun w w' => w.1 ≠ w'.1 := by
  induction writes generalizing chosen with
  | nil =>
    rw [chosen_nil_iff.1 h]
    exact .nil
  | cons write writes ih =>
    obtain ⟨key, value⟩ := write
    obtain ⟨hdisjoint, hapart⟩ := List.pairwise_cons.1 hapart
    by_cases hkey : key.strings = []
    · exact ih ((chosen_cons_of_nil hkey).1 h) hapart
    · obtain ⟨k, hk, rest, hrest, rfl⟩ := (chosen_cons_of_ne_nil hkey).1 h
      refine List.pairwise_cons.2 ⟨?_, ih hrest hapart⟩
      rintro w hw rfl
      obtain ⟨write, hwrite, hmem⟩ := hrest.exists_mem hw
      exact hdisjoint write hwrite hk hmem

/-- Writes that are apart make the same of an object in any order. -/
theorem along_sets_perm {writes writes' : List (Element × Element)} (hperm : writes'.Perm writes)
    (hapart : Apart writes) {o j : Json} : Along Sets writes' o j ↔ Along Sets writes o j := by
  rw [along_sets_iff, along_sets_iff]
  constructor
  · rintro ⟨chosen', hchosen', rfl⟩
    obtain ⟨chosen, hchosen, hkeys⟩ := hchosen'.perm hperm.symm
    exact ⟨chosen, hchosen, (Json.writeAll_perm hkeys (hchosen.keys_ne hapart) o).symm⟩
  · rintro ⟨chosen, hchosen, rfl⟩
    obtain ⟨chosen', hchosen', hkeys⟩ := hchosen.perm hperm
    exact ⟨chosen', hchosen', Json.writeAll_perm hkeys.symm (hchosen.keys_ne hapart) o⟩

/-- A chain of writes gives the objects that they may make of those at its start. -/
theorem chain_writes {calls : List (Method × List Element)} {writes : List (Element × Element)}
    (hcalls : List.Forall₂ Writes calls writes) (hne : calls ≠ []) (e : Element) :
    none ∉ chain (some e) calls ∧ ∃ k os, lastAnswer? e calls = some k ∧
      k.result = ofJson (calls.getLast hne).1.returnType os ∧
      ∀ j, j ∈ os ↔ ∃ o, Holds e o ∧ Along Sets writes o j := by
  have hfollows := hcalls.imp fun _ _ h => follows_write h
  obtain ⟨hrules, k, hlast, ⟨os, hos, hobjects, hresult⟩, hview⟩ := chain_along hfollows hne e
  refine ⟨hrules, k, os, hlast, hresult, fun j => ?_⟩
  rw [← mem_objects_ofJson hos hobjects, ← hresult, hview j]
  simp only [mem_objects]

end Rule.JsonBuilder

open Rule Rule.JsonBuilder in
/-- **The last write wins, along every choice of keys.** After a chain of calls that set members of
an object builder, the JSON values are the objects that come from one that the builder may have held
by choosing a possible key for each call of which one is known and setting the members in order. In
such an object a key is bound to what was written under it last, if anything was. If no two calls
have a possible key in common, the calls in another order give the same JSON values. -/
theorem members_lastWriteWins (R : Element) (calls : List (Method × List Element))
    (writes : List (Element × Element)) (hcalls : List.Forall₂ Writes calls writes)
    (hne : calls ≠ []) :
    none ∉ chain (some R) calls ∧ ∃ k, lastAnswer? R calls = some k ∧
      k.result.types = [(calls.getLast hne).1.returnType] ∧
      (∀ j, j ∈ k.result.jsonValues ↔
        ∃ o, Holds R o ∧ ∃ chosen, Chosen writes chosen ∧ j = o.writeAll chosen) ∧
      (∀ members chosen, ∃ members', Json.writeAll chosen (.object members) = .object members' ∧
        (Keyed.Increasing members → Keyed.Increasing members') ∧
        ∀ key, Keyed.get? key members' =
          (chosen.reverse.lookup key).or (Keyed.get? key members)) ∧
      (Apart writes → ∀ calls', calls'.Perm calls → none ∉ chain (some R) calls' ∧
        ∃ k', lastAnswer? R calls' = some k' ∧
          k'.result.jsonValues = k.result.jsonValues) := by
  obtain ⟨hrules, k, os, hlast, hresult, hos⟩ := chain_writes hcalls hne R
  refine ⟨hrules, k, hlast, by rw [hresult]; rfl, fun j => ?_, ?_, fun hapart calls' hperm => ?_⟩
  · rw [hresult, mem_jsonValues_ofJson, hos]
    simp only [along_sets_iff]
  · exact fun members chosen => Json.exists_writeAll_object chosen members
  · obtain ⟨writes', hcalls', hwrites⟩ := List.perm_comp_forall₂ hperm hcalls
    have hne' : calls' ≠ [] := fun hnil => hne (List.nil_perm.1 (hnil ▸ hperm))
    obtain ⟨hrules', k', os', hlast', hresult', hos'⟩ := chain_writes hcalls' hne' R
    refine ⟨hrules', k', hlast', ?_⟩
    rw [hresult', hresult]
    refine jsonValues_ofJson_congr fun j => ?_
    simp only [hos', hos, along_sets_perm hwrites hapart]

/-- A builder that holds an object, beside an array that no builder of objects holds. -/
def started : Element :=
  ⟨["Ljakarta/json/JsonObjectBuilder;"],
    [.json (.object [("a", .int 0)]), .json (.array [.int 5])]⟩

/-- A text that is one of two. -/
def eitherKey : Element :=
  ⟨[Descriptor.string], [.literal (.string "a"), .literal (.string "b")]⟩

/-- A call on an object builder. -/
def builderCall (name : String) (args : List Element) : Method × List Element :=
  (⟨"jakarta/json/JsonObjectBuilder", name, "Ljakarta/json/JsonObjectBuilder;", false,
    args.map fun _ => Descriptor.object⟩, args)

theorem isBuilder_builderCall (name : String) (args : List Element) :
    Rule.JsonBuilder.IsBuilder (builderCall name args).1 := by
  show Descriptor.apiName? "jakarta/json/JsonObjectBuilder" = some "json/JsonObjectBuilder"
  decide +kernel

/-- Sets one of two members, one with an unknown name, and a third one to null. -/
def composing : List (Method × List Element) :=
  [builderCall "add" [eitherKey, .int 1],
    builderCall "add" [.unknown Descriptor.string, .int 2],
    builderCall "addNull" [.string "c"]]

open Rule Rule.JsonBuilder in
theorem members_lastWriteWins_composing :
    let writes := [(eitherKey, .int 1), (.unknown Descriptor.string, .int 2),
      (.string "c", nullElement)]
    List.Forall₂ Writes composing writes ∧ Apart writes ∧
      ∃ k, lastAnswer? started composing = some k ∧
        k.result = ⟨["Ljakarta/json/JsonObjectBuilder;"],
          [.json (.object [("a", .int 0), ("b", .int 1), ("c", nullElement)]),
            .json (.object [("a", .int 1), ("c", nullElement)])]⟩ ∧
        (∀ j, j ∈ k.result.jsonValues ↔
          ∃ o, Holds started o ∧ ∃ chosen, Chosen writes chosen ∧ j = o.writeAll chosen) ∧
        ∃ k', lastAnswer? started composing.reverse = some k' ∧
          k'.result.jsonValues = k.result.jsonValues := by
  intro writes
  have hcalls : List.Forall₂ Writes composing writes :=
    .cons (.add (isBuilder_builderCall _ _) rfl _ _ _) <|
    .cons (.add (isBuilder_builderCall _ _) rfl _ _ _) <|
    .cons (.addNull (isBuilder_builderCall _ _) rfl _ _) .nil
  have hapart : Apart writes := by
    unfold Apart List.Disjoint
    decide +kernel
  obtain ⟨-, k, hlast, -, hvalues, -, hperm⟩ :=
    members_lastWriteWins started composing writes hcalls (by simp [composing])
  have hresult : (lastAnswer? started composing).map Known.result =
      some ⟨["Ljakarta/json/JsonObjectBuilder;"],
        [.json (.object [("a", .int 0), ("b", .int 1), ("c", nullElement)]),
          .json (.object [("a", .int 1), ("c", nullElement)])]⟩ := by
    decide +kernel
  rw [hlast] at hresult
  obtain ⟨-, hreversed⟩ := hperm hapart composing.reverse (List.reverse_perm composing)
  exact ⟨hcalls, hapart, k, hlast, Option.some.inj hresult, hvalues, hreversed⟩

/-- A key that may have been written before is bound to the last value either way. -/
example :
    let add : Method := ⟨"javax/json/JsonObjectBuilder", "add", "Lb;", false, ["Lk;", "Lv;"]⟩
    let key : Element := ⟨["Lk;"], [.literal (.string "a"), .literal (.string "b")]⟩
    (Rule.chain (some (.unknown "Lb;")) [(add, [key, .int 1]), (add, [.string "a", .int 2])]).map
      (Option.map Known.result) =
    [some ⟨["Lb;"], [.json (.object [("a", .int 1)]), .json (.object [("b", .int 1)])]⟩,
      some ⟨["Lb;"],
        [.json (.object [("a", .int 2)]), .json (.object [("a", .int 2), ("b", .int 1)])]⟩] := by
  decide +kernel

/-! ## Removing members -/

namespace Rule.JsonBuilder

theorem mem_withoutMembers {os : List Json} {key : Element} {j : Json} :
    j ∈ withoutMembers os key ↔ ∃ o ∈ os, j = o.eraseAll key.strings := by
  simp [withoutMembers, Json.eraseAll, eq_comm]

/-- A call that removes a member takes all the possible keys out of every object. -/
theorem call?_remove {m : Method} (hm : IsBuilder m) (hname : m.name = "remove") (e key : Element)
    (rest : List Element) :
    ∃ k, Rule.call? ⟨m, some e, key :: rest⟩ = some k ∧
      ∀ j, j ∈ k.result.jsonValues ↔ ∃ o, Holds e o ∧ j = o.eraseAll key.strings := by
  have hstep : objectStep? m.name (objects (some e)) (key :: rest) =
      some (withoutMembers (objects (some e)) key) := by
    simp only [hname, objectStep?]
  have hne : withoutMembers (objects (some e)) key ≠ [] := by
    simpa [withoutMembers] using objects_ne_nil e
  obtain ⟨k, hk, hresult⟩ := call?_of_objectStep? hm hstep hne
  refine ⟨k, hk, fun j => ?_⟩
  rw [hresult, mem_jsonValues_ofJson, mem_withoutMembers]
  simp only [mem_objects]

end Rule.JsonBuilder

open Rule Rule.JsonBuilder in
/-- **Removing a member removes all its possible keys.** So what becomes of an object when one of the
possible keys is removed is among the results if the object has none of the others as a member; and
for a builder that can only hold this object, it is not among them otherwise. -/
theorem remove_covers (R key : Element) (rest : List Element) (m : Method) (hm : IsBuilder m)
    (hname : m.name = "remove") :
    ∃ k, call? ⟨m, some R, key :: rest⟩ = some k ∧
      (∀ j, j ∈ k.result.jsonValues ↔ ∃ o, Holds R o ∧ j = o.eraseAll key.strings) ∧
      (∀ o, Holds R o → ∀ s ∈ key.strings, (∀ t ∈ key.strings, t ≠ s → o.get? t = none) →
        o.withoutMember s ∈ k.result.jsonValues) ∧
      ∀ o, (∀ o', Holds R o' ↔ o' = o) → ∀ s ∈ key.strings,
        (o.withoutMember s ∈ k.result.jsonValues ↔
          ∀ t ∈ key.strings, t ≠ s → o.get? t = none) := by
  obtain ⟨k, hk, hvalues⟩ := call?_remove hm hname R key rest
  refine ⟨k, hk, hvalues, fun o ho s hs hnone => ?_, fun o honly s hs => ?_⟩
  · exact (hvalues _).2 ⟨o, ho, (Json.withoutMember_eq_eraseAll_iff hs o).2 hnone⟩
  · rw [hvalues, ← Json.withoutMember_eq_eraseAll_iff hs]
    simp only [honly, exists_eq_left]

open Rule Rule.JsonBuilder in
/-- Of two possible keys one is there: that it is removed is covered, that the other one is removed
is not. -/
theorem remove_covers_started :
    let o : Json := .object [("a", .int 0)]
    ∃ k, call? ⟨(builderCall "remove" [eitherKey]).1, some started, [eitherKey]⟩ = some k ∧
      o.withoutMember "a" ∈ k.result.jsonValues ∧ o.withoutMember "b" ∉ k.result.jsonValues := by
  intro o
  have hkeys : eitherKey.strings = ["a", "b"] := rfl
  have honly (o' : Json) : Holds started o' ↔ o' = o := by
    have hvalues : started.jsonValues = [o, .array [.int 5]] := rfl
    rw [Holds, hvalues]
    constructor
    · rintro (⟨hmem, hobject⟩ | ⟨hnone, -⟩)
      · rcases List.mem_cons.1 hmem with rfl | hmem
        · rfl
        · rw [List.mem_singleton.1 hmem] at hobject
          cases hobject
      · cases hnone o (by simp)
    · rintro rfl
      exact Or.inl ⟨by simp, rfl⟩
  obtain ⟨k, hk, -, hcovers, hexact⟩ :=
    remove_covers started eitherKey [] _ (isBuilder_builderCall "remove" [eitherKey]) rfl
  refine ⟨k, hk, ?_, ?_⟩
  · refine hcovers o ((honly o).2 rfl) "a" (by simp [hkeys]) ?_
    rw [hkeys]
    decide +kernel
  · rw [hexact o honly "b" (by simp [hkeys]), hkeys]
    intro hnone
    cases hnone "a" (by simp) (by decide)

open Rule Rule.JsonBuilder in
/-- Two possible keys that are both there: neither of the two objects of which one is left is among
the results. -/
theorem remove_misses_both :
    let o : Json := .object [("a", .int 1), ("b", .int 2)]
    let e : Element := .ofValue "Ljakarta/json/JsonObjectBuilder;" (.json o)
    Holds e o ∧ eitherKey.strings = ["a", "b"] ∧
      ∃ k, call? ⟨(builderCall "remove" [eitherKey]).1, some e, [eitherKey]⟩ = some k ∧
        o.withoutMember "a" ∉ k.result.jsonValues ∧
        o.withoutMember "b" ∉ k.result.jsonValues := by
  intro o e
  have hresult :
      (call? ⟨(builderCall "remove" [eitherKey]).1, some e, [eitherKey]⟩).map Known.result =
        some (.ofValue "Ljakarta/json/JsonObjectBuilder;" (.json .emptyObject)) := by
    decide +kernel
  obtain ⟨k, hk, hk'⟩ := Option.map_eq_some_iff.1 hresult
  have hvalues : k.result.jsonValues = [.emptyObject] := by
    rw [hk']
    rfl
  have ha : o.withoutMember "a" = .object [("b", .int 2)] := rfl
  have hb : o.withoutMember "b" = .object [("a", .int 1)] := rfl
  refine ⟨Or.inl ⟨List.mem_singleton.2 rfl, rfl⟩, rfl, k, hk, ?_, ?_⟩
  · simp [hvalues, ha, Json.emptyObject]
  · simp [hvalues, hb, Json.emptyObject]

end ReturnFlow
