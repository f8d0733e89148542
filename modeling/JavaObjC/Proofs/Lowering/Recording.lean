import JavaObjC.Proofs.Lowering.Formation

/-!
# What a body records

Code generation for a body never looks at the references it records. So from
given scopes it has one outcome, and it adds the same classes to whatever was
recorded before. All of these classes come from the surroundings: they stand
for a Java type or a Java name, or they are predefined. The same holds of the
types in the head of a member, and each of them is among the recorded classes.
-/

namespace JavaObjC

open Generating

/-- The classes that a unit can come to record. -/
inductive Surroundings.Provides (around : Surroundings) (c : ClassRef) : Prop where
  | ofType (t : JavaType) (h : around.mapper.map around.registry t = .object c)
  | ofName (name : Text) (h : around.classOf name = c)
  | predefined (h : ClassRef.predefined? c.name = some c)
  /-- The name of an interface of which nothing else is known. -/
  | asProtocol (name : Text) (hunknown : (around.classOf name).isPlaceholder = true)
      (h : ClassRef.placeholder (around.classOf name).name true = c)

namespace References

/-- The references after some classes were recorded for a unit of a name. -/
def addAll (r : References) (own : Text) (noted : List ClassRef) : References :=
  noted.foldl (fun r c => r.add own c) r

/-- Classes are recorded one after another. -/
theorem addAll_append (r : References) (own : Text) (noted noted' : List ClassRef) :
    r.addAll own (noted ++ noted') = (r.addAll own noted).addAll own noted' := by
  rw [addAll, List.foldl_append]
  rfl

end References

namespace Lower

variable {α β : Type} {around : Surroundings}

/-- An action from some scopes: its outcome, the classes it records and the scopes it leaves,
whatever was recorded before. -/
structure Records (x : Lower α) (around : Surroundings) (scopes : List Scope)
    (outcome : Except Refusal α) (noted : List ClassRef) (left : List Scope) : Prop where
  provided : ∀ c ∈ noted, around.Provides c
  result_eq : ∀ r, result x around ⟨r, scopes⟩ = (outcome, ⟨r.addAll around.ownName noted, left⟩)

namespace Records

variable {scopes left left' : List Scope} {noted noted' : List ClassRef} {x : Lower α}

/-- A plain answer records nothing. -/
theorem pure (a : α) (around : Surroundings) (scopes : List Scope) :
    Records (Pure.pure a) around scopes (.ok a) [] scopes :=
  ⟨List.forall_mem_nil _, fun _ => rfl⟩

/-- A refusal records nothing. -/
theorem refused (r : Refusal) (around : Surroundings) (scopes : List Scope) :
    Records (throw r : Lower α) around scopes (.error r) [] scopes :=
  ⟨List.forall_mem_nil _, fun _ => rfl⟩

/-- What two actions record in a row. -/
theorem bind {f : α → Lower β} {a : α} {outcome : Except Refusal β}
    (hx : Records x around scopes (.ok a) noted left)
    (hf : Records (f a) around left outcome noted' left') :
    Records (x >>= f) around scopes outcome (noted ++ noted') left' := by
  refine ⟨fun c hc => ?_, fun r => ?_⟩
  · rcases List.mem_append.1 hc with hc | hc
    · exact hx.provided c hc
    · exact hf.provided c hc
  · rw [bind_result, hx.result_eq]
    dsimp only
    rw [hf.result_eq, References.addAll_append]

/-- Behind a refusal nothing more is recorded. -/
theorem bind_refused {f : α → Lower β} {e : Refusal}
    (hx : Records x around scopes (.error e) noted left) :
    Records (x >>= f) around scopes (.error e) noted left :=
  ⟨hx.provided, fun r => by rw [bind_result, hx.result_eq]⟩

/-- Referring to a class records it. -/
theorem refer {c : ClassRef} (h : around.Provides c) (scopes : List Scope) :
    Records (refer c) around scopes (.ok ()) [c] scopes :=
  ⟨by simpa using h, fun _ => rfl⟩

end Records

/-- The type of the values of a Java type comes with the class it records, if it is one. -/
theorem mapType_records (around : Surroundings) (t : JavaType) (scopes : List Scope) :
    ∃ ref noted, Records (mapType t) around scopes (.ok ref) noted scopes ∧
      ∀ c, ref = .object c → c = .id ∨ c ∈ noted := by
  by_cases hparameter : around.isParameterType t = true
  · refine ⟨.object .id, [], ⟨List.forall_mem_nil _, fun r => ?_⟩,
      fun c h => .inl (by cases h; rfl)⟩
    change result (if around.isParameterType t then pure (TypeRef.object .id) else _) _ _ = _
    rw [if_pos hparameter]
    rfl
  · refine ⟨around.mapper.map around.registry t, ?_⟩
    cases hmap : around.mapper.map around.registry t with
    | object c =>
      refine ⟨[c], ⟨by simpa using .ofType t hmap, fun r => ?_⟩, fun c' h => .inr ?_⟩
      · change result (if around.isParameterType t then pure (TypeRef.object .id) else _) _ _ = _
        rw [if_neg hparameter, hmap]
        rfl
      · cases h
        exact List.mem_singleton_self c
    | scalar name =>
      refine ⟨[], ⟨List.forall_mem_nil _, fun r => ?_⟩, fun c h => by cases h⟩
      change result (if around.isParameterType t then pure (TypeRef.object .id) else _) _ _ = _
      rw [if_neg hparameter, hmap]
      rfl

/-- Naming a class records one that the surroundings provide, or nothing more. -/
theorem classNamed_records (around : Surroundings) (name : Text) (scopes : List Scope) :
    ∃ c noted, Records (classNamed name) around scopes (.ok c) noted scopes ∧
      around.Provides c := by
  by_cases hparameter : around.isTypeParameter name = true
  · refine ⟨.id, [], ⟨List.forall_mem_nil _, fun r => ?_⟩, .predefined rfl⟩
    change result (if around.isTypeParameter name then pure ClassRef.id else _) _ _ = _
    rw [if_pos hparameter]
    rfl
  · refine ⟨around.classOf name, [around.classOf name],
      ⟨by simpa using .ofName name rfl, fun r => ?_⟩, .ofName name rfl⟩
    change result (if around.isTypeParameter name then pure ClassRef.id else _) _ _ = _
    rw [if_neg hparameter]
    rfl

/-- The types of parameters come with the classes they record. -/
theorem targetParameters_records (around : Surroundings) (parameters : List Parameter)
    (scopes : List Scope) :
    ∃ targets noted, Records (Lowering.targetParameters parameters) around scopes (.ok targets)
      noted scopes ∧ ∀ q ∈ targets, ∀ c, q.type = .object c → c = .id ∨ c ∈ noted := by
  unfold Lowering.targetParameters
  induction parameters with
  | nil => exact ⟨[], [], .pure [] around scopes, List.forall_mem_nil _⟩
  | cons p rest ih =>
    obtain ⟨ref, noted, hfirst, href⟩ := mapType_records around p.type scopes
    obtain ⟨targets, noted', hrest, htargets⟩ := ih
    refine ⟨⟨p.name, ref⟩ :: targets, (noted ++ []) ++ (noted' ++ []), ?_, ?_⟩
    · rw [List.mapM_cons]
      refine .bind (a := ⟨p.name, ref⟩) (.bind hfirst ?_) (.bind hrest ?_)
      · exact .pure _ around scopes
      · exact .pure _ around scopes
    · rw [List.append_nil, List.append_nil, List.forall_mem_cons]
      refine ⟨fun c hc => (href c hc).imp_right (List.mem_append_left _), ?_⟩
      exact fun q hq c hc => (htargets q hq c hc).imp_right (List.mem_append_right _)

/-- Naming a protocol records one class. -/
theorem protocolNamed_records (around : Surroundings) (name : Text) (scopes : List Scope) :
    ∃ c, Records (Lowering.protocolNamed name) around scopes (.ok c) [c] scopes := by
  refine ⟨if (around.classOf name).isPlaceholder
    then ClassRef.placeholder (around.classOf name).name true else around.classOf name,
    ?_, fun _ => rfl⟩
  rw [List.forall_mem_singleton]
  split
  · next hunknown => exact .asProtocol name hunknown rfl
  · exact .ofName name rfl

/-- Every action on a body has one outcome from given scopes, and adds the same classes to whatever
was recorded before. -/
theorem Formed.records {x : Lower α} (h : Formed x) (around : Surroundings)
    (scopes : List Scope) : ∃ outcome noted left, Records x around scopes outcome noted left := by
  induction h generalizing scopes with
  | pure a => exact ⟨_, _, _, .pure a around scopes⟩
  | refused r => exact ⟨_, _, _, .refused r around scopes⟩
  | bind _ _ hx hf =>
    obtain ⟨outcome, noted, left, hfirst⟩ := hx scopes
    cases outcome with
    | error e => exact ⟨_, _, _, hfirst.bind_refused⟩
    | ok a =>
      obtain ⟨outcome', noted', left', hrest⟩ := hf a left
      exact ⟨_, _, _, hfirst.bind hrest⟩
  | read _ _ hf =>
    obtain ⟨outcome, noted, left, hrest⟩ := hf around scopes
    exact ⟨outcome, noted, left, hrest.provided, hrest.result_eq⟩
  | mapType t =>
    obtain ⟨ref, noted, hrecords, -⟩ := mapType_records around t scopes
    exact ⟨_, _, _, hrecords⟩
  | classNamed name =>
    obtain ⟨c, noted, hrecords, -⟩ := classNamed_records around name scopes
    exact ⟨_, _, _, hrecords⟩
  | refer h => exact ⟨_, _, _, .refer (.predefined h) scopes⟩
  | declareLocal name t =>
    exact ⟨.ok (), [], declareIn name t scopes, List.forall_mem_nil _, fun _ => rfl⟩
  | localType? name =>
    exact ⟨.ok (findLocal? name scopes), [], scopes, List.forall_mem_nil _, fun _ => rfl⟩
  | withScope _ hx =>
    obtain ⟨outcome, noted, left, hinner⟩ := hx ([] :: scopes)
    refine ⟨outcome, noted, left.drop 1, hinner.provided, fun r => ?_⟩
    exact congrArg (fun p : Except Refusal _ × BodyState =>
      (p.1, { p.2 with scopes := p.2.scopes.drop 1 })) (hinner.result_eq r)

/-- The outcome of an action for a member, before any of whose code there is one open scope. -/
def outcome (x : Lower α) (around : Surroundings) : Except Refusal α :=
  (result x around { scopes := [[]] }).1

end Lower

namespace Drafting

variable {α : Type}

/-- Generating for a member gives the outcome of its action, whatever the unit has recorded, and
adds classes that its surroundings provide. -/
theorem generate_records {x : Lower α} (h : x.Formed) (setting : Surroundings → Surroundings)
    (around : Surroundings) (d : UnitDraft) :
    ∃ noted, (∀ c ∈ noted, (setting (surroundings around d)).Provides c) ∧
      result (generate setting x) around d =
        (x.outcome (setting (surroundings around d)),
          { d with
            references :=
              d.references.addAll (setting (surroundings around d)).ownName noted }) := by
  obtain ⟨outcome, noted, left, hrecords⟩ := h.records (setting (surroundings around d)) [[]]
  refine ⟨noted, hrecords.provided, ?_⟩
  have houtcome : x.outcome (setting (surroundings around d)) = outcome :=
    congrArg Prod.fst (hrecords.result_eq {})
  rw [houtcome]
  exact congrArg (fun p : Except Refusal α × BodyState =>
    (p.1, { d with references := p.2.references })) (hrecords.result_eq d.references)

/-- Generating for the unit itself records what its action records. -/
theorem generateHead_of_records {x : Lower α} {around : Surroundings} {d d' : UnitDraft} {a b : α}
    {noted : List ClassRef} {left : List Scope}
    (hrecords : x.Records (surroundings around d) [[]] (.ok a) noted left)
    (h : result (generateHead x) around d = (.ok b, d')) :
    b = a ∧ d' = { d with
      references := d.references.addAll (surroundings around d).ownName noted } := by
  have heq := congrArg (fun p : Except Refusal α × BodyState =>
    (p.1, { d with references := p.2.references })) (hrecords.result_eq d.references)
  have hboth := heq.symm.trans h
  obtain ⟨hvalue, hstate⟩ := Prod.mk.inj hboth
  exact ⟨(Except.ok.inj hvalue).symm, hstate.symm⟩

end Drafting

end JavaObjC
