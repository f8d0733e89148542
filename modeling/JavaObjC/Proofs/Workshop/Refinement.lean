import JavaObjC.Proofs.Workshop.Records
import Mathlib.Data.Option.Basic
import Mathlib.Logic.Function.Basic

/-!
# Workshops keep a ledger

A ledger only writes down what happens: for each builder the parts handed to it
before it built, and for each import set every class mentioned to it. When a
builder builds for the first time, its class is computed from these lists. Any
run of a workshop gives the same answers as the ledger of that run. After its
first class a builder refuses to build, and the class it built stays as it is
whatever happens to other builders and import sets.
-/

namespace JavaObjC

/-- A call to a builder of a workshop, by the label of the builder. -/
inductive WorkStep where
  /-- Opens a builder for a class, with an import set of its own or a shared one. -/
  | opens (label name set : Text)
  | hands (label : Text) (part : ClassPart)
  | mentions (label : Text) (c : ClassRef)
  | builds (label : Text)

namespace WorkStep

/-- The methods that are handed over have no name that starts with the mark of class methods. -/
def Unmarked : WorkStep → Prop
  | .hands _ (.method m) => m.Unmarked
  | _ => True

/-- Whether a step opens a builder under a label. -/
def Opens (label : Text) : WorkStep → Prop
  | .opens label' _ _ => label' = label
  | _ => False

end WorkStep

/-- What a step answers: only building gives an answer. -/
abbrev WorkAnswer := Option (Except Failure ClassModel)

namespace Workshop

/-- One call. -/
def step (w : Workshop) : WorkStep → WorkAnswer × Workshop
  | .opens label name set => (none, w.openBench label name set)
  | .hands label part => (none, w.addPart label part)
  | .mentions label c => (none, w.addImport label c)
  | .builds label => ((w.build label).1, (w.build label).2)

/-- The answers to calls in order, and what is left. -/
def run (w : Workshop) : List WorkStep → List WorkAnswer × Workshop
  | [] => ([], w)
  | s :: rest =>
    let later := (w.step s).2.run rest
    ((w.step s).1 :: later.1, later.2)

end Workshop

/-- An import set: the one of a builder that opened without a name, by the number of builders
opened before it, or the one of a name. -/
inductive SetName where
  | own (n : Nat)
  | named (set : Text)
  deriving DecidableEq

/-- What is written down about a builder. -/
structure BuilderEntry where
  name : Text
  set : SetName
  parts : List ClassPart := []
  /-- The class, once it is built. -/
  model : Option ClassModel := none

/-- What was handed to builders and mentioned to import sets. -/
structure Ledger where
  entries : Text → Option BuilderEntry := fun _ => none
  mentions : SetName → List ClassRef := fun _ => []
  opened : Nat := 0

namespace Ledger

/-- Writes an entry down under a label. -/
def set (k : Ledger) (label : Text) (e : BuilderEntry) : Ledger :=
  { k with entries := Function.update k.entries label (some e) }

/-- One call, as it is written down. Parts count until the builder has built. -/
def step (k : Ledger) : WorkStep → WorkAnswer × Ledger
  | .opens label name set =>
    let entry := { name, set := if set.isEmpty then .own k.opened else .named set : BuilderEntry }
    (none, { k.set label entry with opened := k.opened + 1 })
  | .hands label part =>
    match k.entries label with
    | some e =>
      (none, if e.model.isSome then k else k.set label { e with parts := e.parts ++ [part] })
    | none => (none, k)
  | .mentions label c =>
    match k.entries label with
    | some e =>
      (none, { k with mentions := Function.update k.mentions e.set (k.mentions e.set ++ [c]) })
    | none => (none, k)
  | .builds label =>
    match k.entries label with
    | some e =>
      if e.model.isSome then (some (.error (.builderUsed e.name)), k)
      else
        let model := recordedClass e.name e.parts (k.mentions e.set)
        (some (.ok model), k.set label { e with model := some model })
    | none => (some (.error (.builderUsed label)), k)

/-- The answers to calls in order, and what is written down in the end. -/
def run (k : Ledger) : List WorkStep → List WorkAnswer × Ledger
  | [] => ([], k)
  | s :: rest =>
    let later := (k.step s).2.run rest
    ((k.step s).1 :: later.1, later.2)

end Ledger

section Changing

variable {α β : Type}

/-- Changing the item at a place that a list without repetitions gives to one key. -/
theorem changeAt_map [DecidableEq β] {keys : List β} (hnodup : keys.Nodup) {n : Nat} {key : β}
    (hkey : keys[n]? = some key) (f : α → α) (items : β → α) :
    changeAt f n (keys.map items) = keys.map (Function.update items key (f (items key))) := by
  induction keys generalizing n with
  | nil => simp at hkey
  | cons first rest ih =>
    obtain ⟨hfirst, hrest⟩ := List.nodup_cons.1 hnodup
    cases n with
    | zero =>
      obtain rfl : first = key := by simpa using hkey
      have hkept : rest.map (Function.update items first (f (items first))) = rest.map items := by
        refine List.map_congr_left fun b hb => Function.update_of_ne ?_ ..
        rintro rfl
        exact hfirst hb
      simp [changeAt, hkept]
    | succ n =>
      have hmem : key ∈ rest := List.mem_of_getElem? (by simpa using hkey)
      have hne : first ≠ key := by
        rintro rfl
        exact hfirst hmem
      have hstep := ih hrest (by simpa using hkey)
      simp [changeAt, hstep, Function.update_of_ne hne]

end Changing

namespace Workshop

variable {w : Workshop} {label label' : Text} {b : Bench}

/-- What stands at a bench after one was set. -/
theorem bench?_setBench (w : Workshop) (label label' : Text) (b : Bench) :
    (w.setBench label b).bench? label' = if label' = label then some b else w.bench? label' := by
  unfold bench? setBench
  by_cases h : label' = label
  · simp [h]
  · have hkept : (w.benches.filter (·.1 ≠ label)).find? (·.1 = label') =
        w.benches.find? (·.1 = label') := by
      rw [List.find?_filter]
      refine congrArg (w.benches.find? ·) (funext fun entry => ?_)
      by_cases hentry : entry.1 = label' <;> simp [hentry, h]
    simp only [List.find?_cons, Ne.symm h, decide_false, hkept, if_neg h]

end Workshop

/-- A bench as its ledger has it. -/
structure Bench.Recorded (ids : List SetName) (e : BuilderEntry) (b : Bench) : Prop where
  builder_eq : b.builder = { ClassBuilder.gathered e.name e.parts with isSealed := e.model.isSome }
  set_eq : ids[b.slot]? = some e.set
  model_eq : b.model = e.model
  unmarked : ∀ m, .method m ∈ e.parts → m.Unmarked

/-- A workshop as its ledger has it. The import sets are listed in the order of their places. -/
structure Workshop.Recorded (ids : List SetName) (k : Ledger) (w : Workshop) : Prop where
  nodup : ids.Nodup
  imports_eq : w.imports = ids.map fun id => (k.mentions id).foldl ImportSet.add .empty
  shared_iff : ∀ set slot,
    (w.shared.find? (·.1 = set)).map (·.2) = some slot ↔ ids[slot]? = some (.named set)
  own_lt : ∀ n, .own n ∈ ids → n < k.opened
  unnamed : .named [] ∉ ids
  silent : ∀ id, id ∉ ids → k.mentions id = []
  benches : ∀ label, Option.Rel (Bench.Recorded ids) (k.entries label) (w.bench? label)

namespace Workshop.Recorded

variable {ids : List SetName} {k : Ledger} {w : Workshop} {label : Text}

/-- Before the first step nothing is recorded. -/
theorem start : Recorded [] {} {} where
  nodup := List.nodup_nil
  imports_eq := rfl
  shared_iff := by simp
  own_lt := by simp
  unnamed := by simp
  silent := fun _ _ => rfl
  benches := fun _ => .none

/-- The two sides of a label: an entry with its bench, or nothing. -/
theorem bench_cases (h : Recorded ids k w) (label : Text) :
    (k.entries label = none ∧ w.bench? label = none) ∨
      ∃ e b, k.entries label = some e ∧ w.bench? label = some b ∧ b.Recorded ids e := by
  have hrel := h.benches label
  cases hentry : k.entries label with
  | none =>
    rw [hentry] at hrel
    cases hbench : w.bench? label with
    | none => exact .inl ⟨rfl, rfl⟩
    | some b =>
      rw [hbench] at hrel
      cases hrel
  | some e =>
    rw [hentry] at hrel
    cases hbench : w.bench? label with
    | none =>
      rw [hbench] at hrel
      cases hrel
    | some b =>
      rw [hbench] at hrel
      cases hrel with
      | some hrecorded => exact .inr ⟨e, b, rfl, rfl, hrecorded⟩

/-- A bench and its entry can be replaced together. -/
theorem set (h : Recorded ids k w) (label : Text) {e : BuilderEntry} {b : Bench}
    (hb : b.Recorded ids e) :
    Recorded ids (k.set label e) (w.setBench label b) where
  nodup := h.nodup
  imports_eq := h.imports_eq
  shared_iff := h.shared_iff
  own_lt := h.own_lt
  unnamed := h.unnamed
  silent := h.silent
  benches := by
    intro label'
    have hentries : (k.set label e).entries label' =
        if label' = label then some e else k.entries label' := Function.update_apply ..
    rw [bench?_setBench, hentries]
    split
    · exact .some hb
    · exact h.benches label'

/-- The import set at a bench, as it was mentioned to. -/
theorem importsOf_eq (h : Recorded ids k w) {e : BuilderEntry} {b : Bench}
    (hbench : w.bench? label = some b) (hb : b.Recorded ids e) :
    w.importsOf label = (k.mentions e.set).foldl ImportSet.add .empty := by
  have hslot : w.imports[b.slot]? = some ((k.mentions e.set).foldl ImportSet.add .empty) := by
    rw [h.imports_eq, List.getElem?_map, hb.set_eq]
    rfl
  rw [importsOf, hbench]
  simp only [Option.bind_some, hslot, Option.getD_some]

/-- A sealed class takes no part. -/
theorem addPart_of_sealed {b : ClassBuilder} (h : b.isSealed = true) (part : ClassPart) :
    b.addPart part = b := by
  cases part <;>
    simp [ClassBuilder.addPart, ClassBuilder.addBase, ClassBuilder.addProtocol,
      ClassBuilder.addField, ClassBuilder.addMethod, ClassBuilder.addInitializer,
      ClassBuilder.setProtocol, ClassBuilder.change, h]

variable (h : Recorded ids k w)

include h

/-- Handing a part keeps the record, whether the class is open or sealed. -/
theorem hands {part : ClassPart} (hpart : (WorkStep.hands label part).Unmarked) :
    Recorded ids (k.step (.hands label part)).2 (w.step (.hands label part)).2 := by
  simp only [Ledger.step, Workshop.step, addPart]
  rcases h.bench_cases label with ⟨hentry, hbench⟩ | ⟨e, b, hentry, hbench, hb⟩
  · rw [hentry, hbench]
    exact h
  · rw [hentry, hbench]
    dsimp only
    cases hmodel : e.model with
    | some model =>
      have hsealed : b.builder.isSealed = true := by rw [hb.builder_eq, hmodel]; rfl
      have hkept : k.set label e = k := by
        rw [Ledger.set, ← hentry, Function.update_eq_self]
      have hset := h.set label hb
      rw [hkept] at hset
      rw [addPart_of_sealed hsealed]
      exact hset
    | none =>
      have hbuilder : b.builder = ClassBuilder.gathered e.name e.parts := by
        rw [hb.builder_eq, hmodel]
        rfl
      rw [if_neg (by simp), hbuilder, ClassBuilder.addPart_gathered]
      refine h.set label ⟨rfl, hb.set_eq, hb.model_eq.trans hmodel, fun m hm => ?_⟩
      rcases List.mem_append.1 hm with hm | hm
      · exact hb.unmarked m hm
      · obtain rfl := List.mem_singleton.1 hm
        exact hpart

/-- Mentioning a class keeps the record. -/
theorem mentions (c : ClassRef) :
    Recorded ids (k.step (.mentions label c)).2 (w.step (.mentions label c)).2 := by
  simp only [Ledger.step, Workshop.step, addImport]
  rcases h.bench_cases label with ⟨hentry, hbench⟩ | ⟨e, b, hentry, hbench, hb⟩
  · rw [hentry, hbench]
    exact h
  · rw [hentry, hbench]
    have hmem : e.set ∈ ids := List.mem_of_getElem? hb.set_eq
    constructor
    case nodup => exact h.nodup
    case imports_eq =>
      dsimp only
      rw [h.imports_eq, changeAt_map h.nodup hb.set_eq]
      refine List.map_congr_left fun id _ => ?_
      by_cases hid : id = e.set
      · subst hid
        rw [Function.update_self, Function.update_self, List.foldl_concat]
      · rw [Function.update_of_ne hid, Function.update_of_ne hid]
    case shared_iff => exact h.shared_iff
    case own_lt => exact h.own_lt
    case unnamed => exact h.unnamed
    case silent =>
      intro id hid
      have hne : id ≠ e.set := by
        rintro rfl
        exact hid hmem
      exact (Function.update_of_ne hne ..).trans (h.silent id hid)
    case benches => exact h.benches

/-- A builder that opens with an import set that is there. -/
theorem opens_shared {name set : Text} {slot : Nat}
    (hslot : (w.shared.find? (·.1 = set)).map (·.2) = some slot) :
    Recorded ids (k.step (.opens label name set)).2 (w.step (.opens label name set)).2 := by
  have hid := (h.shared_iff set slot).1 hslot
  have hset : set.isEmpty = false := by
    cases set with
    | nil => exact absurd (List.mem_of_getElem? hid) h.unnamed
    | cons _ _ => rfl
  have hopened : Recorded ids { k with opened := k.opened + 1 } w :=
    ⟨h.nodup, h.imports_eq, h.shared_iff, fun n hn => Nat.lt_succ_of_lt (h.own_lt n hn),
      h.unnamed, h.silent, h.benches⟩
  simp only [Ledger.step, Workshop.step, openBench, hslot, hset, Bool.false_eq_true, if_false]
  exact hopened.set label ⟨rfl, hid, rfl, fun m hm => by cases hm⟩

/-- An import set that is not there yet is given the next place. -/
theorem extend {id : SetName} (hnew : id ∉ ids)
    {shared : List (Text × Nat)}
    (hshared : ∀ set slot, (shared.find? (·.1 = set)).map (·.2) = some slot ↔
      (ids ++ [id])[slot]? = some (.named set))
    (hown : ∀ n, id = .own n → n = k.opened) (hnamed : id ≠ .named []) :
    Recorded (ids ++ [id]) { k with opened := k.opened + 1 }
      { w with imports := w.imports ++ [ImportSet.empty], shared } where
  nodup := by
    rw [List.nodup_append]
    refine ⟨h.nodup, List.nodup_singleton id, fun a ha b hb hab => hnew ?_⟩
    rwa [← List.mem_singleton.1 hb, ← hab]
  imports_eq := by
    rw [h.imports_eq, List.map_append, List.map_singleton, h.silent id hnew]
    rfl
  shared_iff := hshared
  own_lt := by
    intro n hn
    rcases List.mem_append.1 hn with hn | hn
    · exact Nat.lt_succ_of_lt (h.own_lt n hn)
    · have := hown n (List.mem_singleton.1 hn).symm
      dsimp only
      omega
  unnamed := by simp [h.unnamed, hnamed.symm]
  silent := fun id' hid' => h.silent id' fun hmem => hid' (List.mem_append_left _ hmem)
  benches := by
    intro label
    rcases h.bench_cases label with ⟨hentry, hbench⟩ | ⟨e, b, hentry, hbench, hb⟩
    · have hbench' : Workshop.bench?
          { w with imports := w.imports ++ [ImportSet.empty], shared } label = none := hbench
      rw [hbench', hentry]
      exact .none
    · have hbench' : Workshop.bench?
          { w with imports := w.imports ++ [ImportSet.empty], shared } label = some b := hbench
      have hset : (ids ++ [id])[b.slot]? = some e.set := by
        rw [List.getElem?_append_left (List.getElem?_eq_some_iff.1 hb.set_eq).1, hb.set_eq]
      rw [hbench', hentry]
      exact .some ⟨hb.builder_eq, hset, hb.model_eq, hb.unmarked⟩

/-- A builder that opens with an import set that is not there yet. -/
theorem opens_fresh {name set : Text} (hslot : (w.shared.find? (·.1 = set)).map (·.2) = none) :
    ∃ ids', Recorded ids' (k.step (.opens label name set)).2 (w.step (.opens label name set)).2
    := by
  have hlength : w.imports.length = ids.length := by rw [h.imports_eq, List.length_map]
  have hnamed : .named set ∉ ids := by
    intro hmem
    obtain ⟨slot, hid⟩ := List.mem_iff_getElem?.1 hmem
    rw [(h.shared_iff set slot).2 hid] at hslot
    cases hslot
  simp only [Ledger.step, Workshop.step, openBench, hslot]
  cases hempty : set.isEmpty with
  | true =>
    have hnew : SetName.own k.opened ∉ ids := fun hmem => Nat.lt_irrefl _ (h.own_lt _ hmem)
    have hshared : ∀ set' slot, (w.shared.find? (·.1 = set')).map (·.2) = some slot ↔
        (ids ++ [.own k.opened])[slot]? = some (.named set') := by
      intro set' slot
      rw [h.shared_iff, List.getElem?_append]
      split
      · rfl
      · rename_i hge
        rw [List.getElem?_eq_none (Nat.le_of_not_lt hge)]
        cases hidx : slot - ids.length <;> simp
    refine ⟨_, (h.extend hnew hshared (fun n hn => by cases hn; rfl) (by simp)).set label ?_⟩
    exact ⟨rfl, by simp [hlength], rfl, fun m hm => by cases hm⟩
  | false =>
    have hshared : ∀ set' slot,
        (((set, w.imports.length) :: w.shared).find? (·.1 = set')).map (·.2) = some slot ↔
          (ids ++ [.named set])[slot]? = some (.named set') := by
      intro set' slot
      rw [List.find?_cons, List.getElem?_append]
      by_cases hset : set = set'
      · subst hset
        simp only [decide_true, Option.map_some, hlength]
        split
        · rename_i hlt
          refine ⟨fun heq => ?_, fun hid => absurd (List.mem_of_getElem? hid) hnamed⟩
          rw [Option.some.injEq] at heq
          omega
        · rename_i hge
          cases hidx : slot - ids.length <;> simp <;> omega
      · simp only [hset, decide_false, h.shared_iff]
        split
        · rfl
        · rename_i hge
          rw [List.getElem?_eq_none (Nat.le_of_not_lt hge)]
          cases hidx : slot - ids.length <;> simp [hset]
    have hne : SetName.named set ≠ .named [] := by
      intro heq
      cases heq
      cases hempty
    refine ⟨_, (h.extend hnamed hshared (fun n hn => by cases hn) hne).set label ?_⟩
    exact ⟨rfl, by simp [hlength], rfl, fun m hm => by cases hm⟩

/-- Building answers as the record says and keeps it. -/
theorem builds (label : Text) :
    (w.step (.builds label)).1 = (k.step (.builds label)).1 ∧ Recorded ids
    (k.step (.builds label)).2 (w.step (.builds label)).2 := by
  simp only [Ledger.step, Workshop.step, build]
  rcases h.bench_cases label with ⟨hentry, hbench⟩ | ⟨e, b, hentry, hbench, hb⟩
  · rw [hentry, hbench]
    exact ⟨rfl, h⟩
  · rw [hentry, hbench]
    dsimp only
    rw [hb.builder_eq, h.importsOf_eq hbench hb]
    cases hmodel : e.model with
    | some model => exact ⟨rfl, h⟩
    | none =>
      have hmodel' : (ClassBuilder.gathered e.name e.parts).model
          ((k.mentions e.set).foldl ImportSet.add .empty) =
            recordedClass e.name e.parts (k.mentions e.set) :=
        ClassBuilder.model_gathered e.name (k.mentions e.set) hb.unmarked
      refine ⟨congrArg (fun m => some (Except.ok m)) hmodel', ?_⟩
      refine h.set label ⟨rfl, hb.set_eq, congrArg some hmodel', hb.unmarked⟩

/-- A call is answered as the ledger has it, and written down. -/
theorem step {s : WorkStep} (hs : s.Unmarked) :
    (w.step s).1 = (k.step s).1 ∧ ∃ ids', Recorded ids' (k.step s).2 (w.step s).2 := by
  cases s with
  | opens label name set =>
    refine ⟨rfl, ?_⟩
    cases hslot : (w.shared.find? (·.1 = set)).map (·.2) with
    | some slot => exact ⟨ids, h.opens_shared hslot⟩
    | none => exact h.opens_fresh hslot
  | hands label part =>
    refine ⟨?_, ids, h.hands hs⟩
    simp only [Ledger.step, Workshop.step]
    split <;> rfl
  | mentions label c =>
    refine ⟨?_, ids, h.mentions c⟩
    simp only [Ledger.step, Workshop.step]
    split <;> rfl
  | builds label =>
    obtain ⟨hanswer, hrecorded⟩ := h.builds label
    exact ⟨hanswer, ids, hrecorded⟩

/-- All calls of a run are answered as the ledger has it. -/
theorem run {steps : List WorkStep} (hsteps : ∀ s ∈ steps, s.Unmarked) :
    (w.run steps).1 = (k.run steps).1 := by
  induction steps generalizing ids k w with
  | nil => rfl
  | cons s rest ih =>
    rw [List.forall_mem_cons] at hsteps
    obtain ⟨hanswer, ids', hrecorded⟩ := h.step hsteps.1
    rw [Workshop.run, Ledger.run, hanswer, ih hrecorded hsteps.2]

end Workshop.Recorded

namespace Workshop

variable {w : Workshop} {label : Text} {model : ClassModel}

/-- A builder that has built a class. -/
def HasBuilt (w : Workshop) (label : Text) (model : ClassModel) : Prop :=
  ∃ b, w.bench? label = some b ∧ b.builder.isSealed = true ∧ b.builder.name = model.name ∧
    b.model = some model

/-- A builder that gives a class has built it. -/
theorem hasBuilt_of_build (h : (w.build label).1 = .ok model) :
    (w.build label).2.HasBuilt label model := by
  unfold build at h ⊢
  cases hbench : w.bench? label with
  | none =>
    rw [hbench] at h
    cases h
  | some b =>
    rw [hbench] at h
    dsimp only at h ⊢
    unfold ClassBuilder.build? at h ⊢
    cases hsealed : b.builder.isSealed with
    | true =>
      rw [hsealed] at h
      cases h
    | false =>
      rw [hsealed] at h
      obtain rfl := Except.ok.inj h
      exact ⟨_, (bench?_setBench ..).trans (if_pos rfl), rfl, rfl, rfl⟩

/-- What happens to other labels leaves a bench alone. -/
theorem HasBuilt.setBench (h : w.HasBuilt label model) {label' : Text} {b : Bench}
    (hne : label' ≠ label) : (w.setBench label' b).HasBuilt label model := by
  obtain ⟨b', hbench, hb'⟩ := h
  exact ⟨b', by rw [bench?_setBench, if_neg hne.symm, hbench], hb'⟩

/-- A builder that has built a class answers the next attempt with a refusal. -/
theorem HasBuilt.build_eq (h : w.HasBuilt label model) :
    w.build label = (.error (.builderUsed model.name), w) := by
  obtain ⟨b, hbench, hsealed, hname, -⟩ := h
  simp only [build, hbench, ClassBuilder.build?, hsealed, if_true, hname]

/-- A class that was built is the one that is there. -/
theorem HasBuilt.built?_eq (h : w.HasBuilt label model) : w.built? label = some model := by
  obtain ⟨b, hbench, -, -, hmodel⟩ := h
  rw [built?, hbench]
  exact hmodel

/-- No call changes a class that was built, unless its label goes to another builder. -/
theorem HasBuilt.step (h : w.HasBuilt label model) {s : WorkStep} (hs : ¬ s.Opens label) :
    (w.step s).2.HasBuilt label model := by
  cases s with
  | opens label' name set =>
    have hw : ∀ imports shared,
        Workshop.HasBuilt { w with imports, shared } label model := fun _ _ => h
    simp only [Workshop.step, openBench]
    split
    · exact h.setBench hs
    · split
      · exact (hw _ _).setBench hs
      · exact (hw _ _).setBench hs
  | hands label' part =>
    simp only [Workshop.step, addPart]
    split
    · rename_i b hbench
      by_cases hlabel : label' = label
      · subst hlabel
        obtain ⟨b', hbench', hsealed, hname, hmodel⟩ := h
        rw [hbench] at hbench'
        obtain rfl := Option.some.inj hbench'
        rw [Recorded.addPart_of_sealed hsealed]
        exact ⟨b, by rw [bench?_setBench, if_pos rfl], hsealed, hname, hmodel⟩
      · exact h.setBench hlabel
    · exact h
  | mentions label' c =>
    simp only [Workshop.step, addImport]
    split
    · exact h
    · exact h
  | builds label' =>
    by_cases hlabel : label' = label
    · subst hlabel
      rw [Workshop.step, h.build_eq]
      exact h
    · simp only [Workshop.step, build]
      split
      · exact h
      · split
        · exact h.setBench hlabel
        · exact h

/-- Steps in two parts are steps in a row. -/
theorem run_append (w : Workshop) (earlier later : List WorkStep) :
    (w.run (earlier ++ later)).2 = ((w.run earlier).2.run later).2 := by
  induction earlier generalizing w with
  | nil => rfl
  | cons s rest ih => exact ih (w.step s).2

/-- A class that was built stays so until its bench is opened again. -/
theorem HasBuilt.run (h : w.HasBuilt label model) {steps : List WorkStep}
    (hsteps : ∀ s ∈ steps, ¬ s.Opens label) : (w.run steps).2.HasBuilt label model := by
  induction steps generalizing w with
  | nil => exact h
  | cons s rest ih =>
    rw [List.forall_mem_cons] at hsteps
    exact ih (h.step hsteps.1) hsteps.2

/-- A run of a workshop gives the answers of its ledger. After the first class of a builder, in
whatever state the calls in between leave the workshop, the class is the same and the builder
refuses to build. -/
theorem run_refines_ledger (steps : List WorkStep) (hsteps : ∀ s ∈ steps, s.Unmarked) :
    (run {} steps).1 = (Ledger.run {} steps).1 ∧
      ∀ earlier later label model, steps = earlier ++ .builds label :: later →
        ((run {} earlier).2.build label).1 = .ok model →
        (∀ s ∈ later, ¬ s.Opens label) →
        (run {} steps).2.built? label = some model ∧
          ((run {} steps).2.build label).1 = .error (.builderUsed model.name) := by
  refine ⟨Recorded.start.run hsteps, ?_⟩
  rintro earlier later label model rfl hbuilt hlater
  have hbuilt' : (run {} (earlier ++ .builds label :: later)).2.HasBuilt label model := by
    rw [run_append]
    exact (hasBuilt_of_build hbuilt).run hlater
  exact ⟨hbuilt'.built?_eq, by rw [hbuilt'.build_eq]⟩

/-- Two builders with one import set: what the second does after the first has built leaves the
first class as it is. -/
theorem run_refines_ledger_of_shared :
    let earlier : List WorkStep :=
      [.opens "a" "A" "s", .opens "b" "B" "s", .hands "a" (.method { name := "f" }),
        .mentions "b" (.placeholder "X" false)]
    let later : List WorkStep :=
      [.hands "a" (.method { name := "g" }), .mentions "b" { name := "X", origin := .generated },
        .builds "b"]
    let steps := earlier ++ .builds "a" :: later
    let model :=
      recordedClass "A" [.method { name := "f" }] [ClassRef.placeholder "X" false]
    (∀ s ∈ steps, s.Unmarked) ∧ (run {} steps).1 = (Ledger.run {} steps).1 ∧
      (run {} steps).2.built? "a" = some model ∧
      ((run {} steps).2.build "a").1 = .error (.builderUsed "A") := by
  intro earlier later steps model
  have hunmarked : ∀ s ∈ steps, s.Unmarked := by
    simp [steps, earlier, later, WorkStep.Unmarked, TargetMethod.Unmarked]
    decide
  have hbuilt : ((run {} earlier).2.build "a").1 = .ok model := by rfl
  have hlater : ∀ s ∈ later, ¬ s.Opens "a" := by simp [later, WorkStep.Opens]
  obtain ⟨hanswers, hafter⟩ := run_refines_ledger steps hunmarked
  exact ⟨hunmarked, hanswers, hafter earlier later "a" model rfl hbuilt hlater⟩

end Workshop

end JavaObjC
