import JavaObjC.Proofs.Links.DeclaredTypes
import Mathlib.Data.List.Shortlex

/-!
# Supertypes breadth first

A class is reached from a name by ways along declared supertypes, and a way is
the list of the places that these supertypes have among those of their class,
where the superclass comes before the interfaces. Shorter ways come first, and
of equally long ones the one that takes an earlier supertype where they part.
A search visits the class of every name once, in the order of the first ways
that lead to the names, also where supertypes are unknown, repeated or cyclic.
So a field or a method that is looked for is that of the first class in this
order. Supertypes are declared by their simple names. So a search that starts
from a simple name visits no class twice, and one that starts from a name with
its package can come back to the class that it started from.
-/

namespace JavaObjC

/-- The ways from a name to a name along declared supertypes. -/
inductive Way (table : Text → Option ClassSignature) (start : Text) : List Nat → Text → Prop where
  | start : Way table start [] start
  | up {path : List Nat} {name upper : Text} {c : ClassSignature} {place : Nat}
      (h : Way table start path name) (hc : table name = some c)
      (hplace : c.supertypes[place]? = some upper) : Way table start (path ++ [place]) upper

/-- A way comes before another one. -/
abbrev Earlier : List Nat → List Nat → Prop := List.Shortlex (· < ·)

section Ways

variable {path path' : List Nat}

/-- A class is earlier than those above it. -/
theorem earlier_concat (path : List Nat) (place : Nat) : Earlier path (path ++ [place]) :=
  .of_length_lt (by simp)

/-- Ways are in the order of their beginnings, as far as these differ. -/
theorem Earlier.concat (h : Earlier path path') (place place' : Nat) :
    Earlier (path ++ [place]) (path' ++ [place']) := by
  rcases List.shortlex_def.1 h with hshort | ⟨hlength, hlex⟩
  · exact .of_length_lt (by simpa using hshort)
  · refine .of_lex (by simp [hlength]) ?_
    clear h
    induction hlex with
    | nil => simp at hlength
    | cons _ ih => exact .cons (ih (by simpa using hlength))
    | rel h => exact .rel h

/-- To be earlier goes on. -/
theorem Earlier.trans {path'' : List Nat} (h : Earlier path path') (h' : Earlier path' path'') :
    Earlier path path'' := by
  rcases List.shortlex_def.1 h with hshort | ⟨hlength, hlex⟩
  · rcases List.shortlex_def.1 h' with hshort' | ⟨hlength', -⟩
    · exact .of_length_lt (hshort.trans hshort')
    · exact .of_length_lt (hlength' ▸ hshort)
  · rcases List.shortlex_def.1 h' with hshort' | ⟨hlength', hlex'⟩
    · exact .of_length_lt (hlength ▸ hshort')
    · exact .of_lex (hlength.trans hlength') (List.lt_trans (α := Nat) hlex hlex')

end Ways

/-- A class that a search visits: the way to it, the name it is known by, and its signature. -/
structure Visit where
  path : List Nat
  name : Text
  table : ClassSignature

/-- All known classes that can be reached from a name, each once and in the order of the first
ways to them. -/
structure BreadthFirst (table : Text → Option ClassSignature) (start : Text)
    (visits : List Visit) : Prop where
  found : ∀ v ∈ visits, table v.name = some v.table ∧ Way table start v.path v.name
  first : ∀ v ∈ visits, ∀ path, Way table start path v.name → v.path = path ∨ Earlier v.path path
  ordered : (visits.map Visit.path).Pairwise Earlier
  once : (visits.map Visit.name).Nodup
  all : ∀ path name c, Way table start path name → table name = some c →
    name ∈ visits.map Visit.name

section Search

variable {table : Text → Option ClassSignature} {start : Text} {visits : List Visit}
  {path path' : List Nat} {name name' : Text} {c : ClassSignature}
  {queue rest : List (List Nat × Text)}

/-- A way that asks for no further visit: the name is unknown, or its class was visited by a way
that does not come later. -/
def Settled (table : Text → Option ClassSignature) (visits : List Visit) (path : List Nat)
    (name : Text) : Prop :=
  table name = none ∨ ∃ v ∈ visits, v.name = name ∧ (v.path = path ∨ Earlier v.path path)

/-- A name that is settled stays so with more visits. -/
theorem Settled.append (h : Settled table visits path name) (more : List Visit) :
    Settled table (visits ++ more) path name := by
  rcases h with h | ⟨v, hv, hname, hpath⟩
  · exact .inl h
  · exact .inr ⟨v, List.mem_append_left _ hv, hname, hpath⟩

/-- The supertypes of a class, with the ways to them. -/
def Visit.uppers (v : Visit) : List (List Nat × Text) :=
  v.table.supertypes.mapIdx fun place upper => (v.path ++ [place], upper)

/-- The ways up from a visited class are one step longer. -/
theorem Visit.mem_uppers {v : Visit} {e : List Nat × Text} :
    e ∈ v.uppers ↔ ∃ place, e.1 = v.path ++ [place] ∧ v.table.supertypes[place]? = some e.2 := by
  obtain ⟨path, upper⟩ := e
  simp only [uppers, List.mem_mapIdx, Prod.mk.injEq, List.getElem?_eq_some_iff]
  constructor
  · rintro ⟨place, hplace, rfl, rfl⟩
    exact ⟨place, rfl, hplace, rfl⟩
  · rintro ⟨place, rfl, hplace, rfl⟩
    exact ⟨place, hplace, rfl, rfl⟩

/-- The ways up from a visited class lead to its supertypes. -/
theorem Visit.uppers_names (v : Visit) : v.uppers.map Prod.snd = v.table.supertypes := by
  refine List.ext_getElem? fun place => ?_
  simp [uppers, Function.comp_def]

/-- The ways up from a visited class are in the order of its supertypes. -/
theorem Visit.uppers_ordered (v : Visit) : (v.uppers.map Prod.fst).Pairwise Earlier := by
  rw [List.pairwise_map, List.pairwise_iff_getElem]
  intro i j hi hj hij
  simp only [uppers, List.getElem_mapIdx]
  exact ((List.shortlex_singleton_iff i j).2 hij).append_left v.path

/-- A search underway: what was visited, and the ways that still have to be looked at. -/
structure Searching (table : Text → Option ClassSignature) (start : Text) (visits : List Visit)
    (queue : List (List Nat × Text)) : Prop where
  found : ∀ v ∈ visits, table v.name = some v.table ∧ Way table start v.path v.name
  queued : ∀ e ∈ queue, Way table start e.1 e.2
  ordered : (visits.map Visit.path ++ queue.map Prod.fst).Pairwise Earlier
  once : (visits.map Visit.name).Nodup
  /-- The ways that wait go on from visited classes. -/
  stems : ∀ e ∈ queue, e.1 = [] ∨ ∃ v ∈ visits, ∃ place, e.1 = v.path ++ [place]
  begun : ([], start) ∈ queue ∨ Settled table visits [] start
  followed : ∀ v ∈ visits, ∀ e ∈ v.uppers, e ∈ queue ∨ Settled table visits e.1 e.2

namespace Searching

/-- Before the first visit only the start is queued. -/
theorem init (table : Text → Option ClassSignature) (start : Text) :
    Searching table start [] [([], start)] where
  found := nofun
  queued := by simpa using Way.start
  ordered := List.pairwise_singleton _ _
  once := .nil
  stems := by simp
  begun := .inl List.mem_cons_self
  followed := nofun

/-- The ways behind those of the visited classes. -/
theorem earlier (h : Searching table start visits ((path, name) :: rest)) {v : Visit}
    (hv : v ∈ visits) : Earlier v.path path :=
  (List.pairwise_append.1 h.ordered).2.2 _ (List.mem_map_of_mem hv) _ List.mem_cons_self

/-- The next way is passed over if it is settled. -/
theorem skip (h : Searching table start visits ((path, name) :: rest))
    (hsettled : Settled table visits path name) : Searching table start visits rest where
  found := h.found
  queued e he := h.queued e (List.mem_cons_of_mem _ he)
  ordered := h.ordered.sublist (List.Sublist.append_left (List.sublist_cons_self _ _) _)
  once := h.once
  stems e he := h.stems e (List.mem_cons_of_mem _ he)
  begun := by
    rcases h.begun with hmem | hdone
    · rcases List.mem_cons.1 hmem with heq | hmem
      · cases heq
        exact .inr hsettled
      · exact .inl hmem
    · exact .inr hdone
  followed v hv e he := by
    rcases h.followed v hv e he with hmem | hdone
    · rcases List.mem_cons.1 hmem with rfl | hmem
      · exact .inr hsettled
      · exact .inl hmem
    · exact .inr hdone

/-- The ways to the supertypes of the next class come after all that wait already. -/
theorem earlier_uppers (h : Searching table start visits ((path, name) :: rest)) {v : Visit}
    (hpath : v.path = path) {e : List Nat × Text} (he : e ∈ v.uppers) {earlier : List Nat}
    (hearlier : earlier ∈ visits.map Visit.path ++ path :: rest.map Prod.fst) :
    Earlier earlier e.1 := by
  obtain ⟨place, hplace, -⟩ := Visit.mem_uppers.1 he
  rw [hplace, hpath]
  rcases List.mem_append.1 hearlier with hvisited | hwaits
  · obtain ⟨w, hw, rfl⟩ := List.mem_map.1 hvisited
    exact (h.earlier hw).append_right _
  · rcases List.mem_cons.1 hwaits with rfl | hwaits
    · exact earlier_concat _ _
    · obtain ⟨later, hlater, rfl⟩ := List.mem_map.1 hwaits
      rcases h.stems later (List.mem_cons_of_mem _ hlater) with hstart | ⟨w, hw, other, hstem⟩
      · rw [hstart]
        exact .of_length_lt (by simp)
      · rw [hstem]
        exact (h.earlier hw).concat other place

/-- The next class is visited if it is known and was not visited. -/
theorem visit (h : Searching table start visits ((path, name) :: rest))
    (hc : table name = some c) (hnew : name ∉ visits.map Visit.name) :
    Searching table start (visits ++ [⟨path, name, c⟩])
      (rest ++ Visit.uppers ⟨path, name, c⟩) := by
  have hway := h.queued _ List.mem_cons_self
  have hhead : Settled table (visits ++ [⟨path, name, c⟩]) path name :=
    .inr ⟨_, List.mem_append_right _ List.mem_cons_self, rfl, .inl rfl⟩
  refine ⟨?_, ?_, ?_, ?_, ?_, ?_, ?_⟩
  · intro v hv
    rcases List.mem_append.1 hv with hv | hv
    · exact h.found v hv
    · obtain rfl := List.mem_singleton.1 hv
      exact ⟨hc, hway⟩
  · intro e he
    rcases List.mem_append.1 he with he | he
    · exact h.queued e (List.mem_cons_of_mem _ he)
    · obtain ⟨place, hplace, hupper⟩ := Visit.mem_uppers.1 he
      rw [hplace]
      exact hway.up hc hupper
  · have hordered : (visits.map Visit.path ++ path :: rest.map Prod.fst).Pairwise Earlier := h.ordered
    have hall := List.pairwise_append.2 ⟨hordered, Visit.uppers_ordered ⟨path, name, c⟩,
      fun earlier hearlier upper hupper => by
        obtain ⟨e, he, rfl⟩ := List.mem_map.1 hupper
        exact h.earlier_uppers rfl he hearlier⟩
    simpa using hall
  · rw [List.map_append]
    exact List.Nodup.append h.once (List.nodup_singleton _) (by simpa using hnew)
  · intro e he
    rcases List.mem_append.1 he with he | he
    · rcases h.stems e (List.mem_cons_of_mem _ he) with hstart | ⟨v, hv, place, hstem⟩
      · exact .inl hstart
      · exact .inr ⟨v, List.mem_append_left _ hv, place, hstem⟩
    · obtain ⟨place, hplace, -⟩ := Visit.mem_uppers.1 he
      exact .inr ⟨_, List.mem_append_right _ List.mem_cons_self, place, hplace⟩
  · rcases h.begun with hmem | hdone
    · rcases List.mem_cons.1 hmem with heq | hmem
      · cases heq
        exact .inr hhead
      · exact .inl (List.mem_append_left _ hmem)
    · exact .inr (hdone.append _)
  · intro v hv e he
    rcases List.mem_append.1 hv with hv | hv
    · rcases h.followed v hv e he with hmem | hdone
      · rcases List.mem_cons.1 hmem with rfl | hmem
        · exact .inr hhead
        · exact .inl (List.mem_append_left _ hmem)
      · exact .inr (hdone.append _)
    · obtain rfl := List.mem_singleton.1 hv
      exact .inl (List.mem_append_right _ he)

/-- A search that has nothing left to look at has settled every way. -/
theorem settled (h : Searching table start visits []) (hway : Way table start path name) :
    Settled table visits path name := by
  induction hway with
  | start => exact h.begun.resolve_left List.not_mem_nil
  | @up path name upper c place hway hc hplace ih =>
    obtain ⟨v, hv, rfl, hpath⟩ := ih.resolve_left (by rw [hc]; exact nofun)
    obtain rfl : v.table = c := Option.some.inj ((h.found v hv).1.symm.trans hc)
    have hupper : (v.path ++ [place], upper) ∈ v.uppers := Visit.mem_uppers.2 ⟨place, rfl, hplace⟩
    rcases (h.followed v hv _ hupper).resolve_left List.not_mem_nil with hnone | ⟨w, hw, rfl, hearlier⟩
    · exact .inl hnone
    · refine .inr ⟨w, hw, rfl, ?_⟩
      rcases hpath with rfl | hpath
      · exact hearlier
      · rcases hearlier with heq | hearlier
        · rw [heq]
          exact .inr (hpath.concat place place)
        · exact .inr (hearlier.trans (hpath.concat place place))

/-- A search that has nothing left to look at was breadth first. -/
theorem breadthFirst (h : Searching table start visits []) : BreadthFirst table start visits where
  found := h.found
  first v hv path hway := by
    rcases h.settled hway with hnone | ⟨w, hw, hname, hpath⟩
    · rw [(h.found v hv).1] at hnone
      cases hnone
    · obtain rfl := List.inj_on_of_nodup_map h.once hw hv hname
      exact hpath
  ordered := by simpa using h.ordered
  once := h.once
  all path name c hway hc := by
    rcases h.settled hway with hnone | ⟨w, hw, rfl, -⟩
    · rw [hc] at hnone
      cases hnone
    · exact List.mem_map_of_mem hw

end Searching

/-- The class that a name leads a search to; the empty name leads nowhere. -/
def Surroundings.table? (around : Surroundings) (name : Text) : Option ClassSignature :=
  if name = [] then none else around.members? name

/-- A name that is not empty is looked up among the members. -/
theorem Surroundings.table?_of_ne_nil {around : Surroundings} (h : name ≠ []) :
    around.table? name = around.members? name := if_neg h

/-- The search visits the next class in the queue, or passes it over, until nothing is left. -/
theorem searching_search (around : Surroundings) (seen : List Text)
    (queue : List (List Nat × Text)) (h : Searching around.table? start visits queue)
    (hseen : ∀ name ∈ seen, around.table? name = none ∨ name ∈ visits.map Visit.name)
    (hvisits : ∀ v ∈ visits, v.name ∈ seen) :
    ∃ more, around.search seen (queue.map Prod.snd) = more.map Visit.table ∧
      Searching around.table? start (visits ++ more) [] := by
  generalize hnames : queue.map Prod.snd = names
  fun_induction Surroundings.search around seen names generalizing visits queue with
  | case1 seen =>
    obtain rfl := List.map_eq_nil_iff.1 hnames
    exact ⟨[], rfl, by simpa using h⟩
  | case2 seen name names hskip ih =>
    obtain ⟨⟨path, _⟩, rest, rfl, rfl, rfl⟩ := List.map_eq_cons_iff.1 hnames
    refine ih rest (h.skip ?_) hseen hvisits rfl
    rcases hskip with hempty | hmem
    · exact .inl (if_pos hempty)
    · refine (hseen _ hmem).imp_right fun hvisited => ?_
      obtain ⟨v, hv, hname⟩ := List.mem_map.1 hvisited
      exact ⟨v, hv, hname, .inr (h.earlier hv)⟩
  | case3 seen name names hskip hnone ih =>
    obtain ⟨⟨path, name⟩, rest, rfl, rfl, rfl⟩ := List.map_eq_cons_iff.1 hnames
    have hnone' : around.table? name = none :=
      (Surroundings.table?_of_ne_nil fun hempty => hskip (.inl hempty)).trans hnone
    exact ih rest (h.skip (.inl hnone')) (List.forall_mem_cons.2 ⟨.inl hnone', hseen⟩)
      (fun v hv => List.mem_cons_of_mem _ (hvisits v hv)) rfl
  | case4 seen name names hskip c hc ih =>
    obtain ⟨⟨path, name⟩, rest, rfl, rfl, rfl⟩ := List.map_eq_cons_iff.1 hnames
    have hc' : around.table? name = some c :=
      (Surroundings.table?_of_ne_nil fun hempty => hskip (.inl hempty)).trans hc
    have hnew : name ∉ visits.map Visit.name := by
      intro hmem
      obtain ⟨v, hv, rfl⟩ := List.mem_map.1 hmem
      exact hskip (.inr (hvisits v hv))
    obtain ⟨more, hmore, hdone⟩ := ih _ (h.visit hc' hnew)
      (by
        rw [List.map_append]
        refine List.forall_mem_cons.2 ⟨.inr (by simp), fun other hother => ?_⟩
        exact (hseen other hother).imp_right (List.mem_append_left _))
      (by
        refine List.forall_mem_append.2 ⟨fun v hv => List.mem_cons_of_mem _ (hvisits v hv), ?_⟩
        exact List.forall_mem_singleton.2 List.mem_cons_self)
      (by rw [List.map_append, Visit.uppers_names])
    exact ⟨⟨path, name, c⟩ :: more, by rw [hmore, List.map_cons], by simpa using hdone⟩

/-- The classes of a hierarchy are visited breadth first. -/
theorem breadthFirst_hierarchy (around : Surroundings) (start : Text) :
    ∃ visits, around.hierarchy start = visits.map Visit.table ∧
      BreadthFirst around.table? start visits := by
  obtain ⟨visits, hvisits, hdone⟩ := searching_search around [] [([], start)] (.init _ start)
    (List.forall_mem_nil _) (List.forall_mem_nil _)
  exact ⟨visits, hvisits, hdone.breadthFirst⟩

end Search

section Lookups

variable {table table' : Text → Option ClassSignature} {start : Text} {visits : List Visit}

/-- The answer of the first class that has one; there is none if no class has one. -/
def FirstOf {α : Type} (ask : ClassSignature → Option α) (visits : List Visit) : Option α → Prop
  | some a => ∃ before v after, visits = before ++ v :: after ∧ ask v.table = some a ∧
      ∀ w ∈ before, ask w.table = none
  | none => ∀ v ∈ visits, ask v.table = none

/-- The first answer on the way is the one found in the list. -/
theorem firstOf_findSome? {α : Type} (ask : ClassSignature → Option α) (visits : List Visit) :
    FirstOf ask visits ((visits.map Visit.table).findSome? ask) := by
  rw [List.findSome?_map]
  cases hanswer : visits.findSome? (ask ∘ Visit.table) with
  | none => exact List.findSome?_eq_none_iff.1 hanswer
  | some a => exact List.findSome?_eq_some_iff.1 hanswer

/-- There is no answer exactly if none of the classes that are reached has one. -/
theorem BreadthFirst.none_iff (h : BreadthFirst table start visits) {α : Type}
    (ask : ClassSignature → Option α) : (visits.map Visit.table).findSome? ask = none ↔
      ∀ path name c, Way table start path name → table name = some c → ask c = none := by
  rw [List.findSome?_eq_none_iff, List.forall_mem_map]
  constructor
  · intro hnone path name c hway hc
    obtain ⟨v, hv, rfl⟩ := List.mem_map.1 (h.all path name c hway hc)
    obtain rfl : v.table = c := Option.some.inj ((h.found v hv).1.symm.trans hc)
    exact hnone v hv
  · intro hnone v hv
    obtain ⟨hc, hway⟩ := h.found v hv
    exact hnone v.path v.name v.table hway hc

/-- The supertypes in a signature are simple names, as those of a declaration are. -/
def ClassSignature.HasSimpleSupertypes (c : ClassSignature) : Prop :=
  ∀ upper ∈ c.supertypes, simpleName upper = upper

/-- A declaration names its supertypes without their packages. -/
theorem ClassSignature.ofDecl_hasSimpleSupertypes (decl : Node) :
    (ofDecl decl).HasSimpleSupertypes := by
  have hmembers : ∀ (nodes : List Node) (c : ClassSignature),
      (nodes.foldl addMember c).supertypes = c.supertypes := by
    intro nodes
    induction nodes with
    | nil => exact fun _ => rfl
    | cons n nodes ih =>
      intro c
      rw [List.foldl_cons, ih]
      unfold addMember
      split <;> rfl
  have hnodes : ∀ nodes : List Node, ∀ upper ∈ simpleTypeNames nodes, simpleName upper = upper := by
    intro nodes upper hupper
    obtain ⟨n, -, rfl⟩ := List.mem_map.1 hupper
    exact simpleName_simpleName _
  intro upper hupper
  rw [ofDecl_eq, hmembers, supertypes] at hupper
  rcases List.mem_append.1 hupper with hbase | hinterface
  · simp only [ofHead, Option.mem_toList, Option.ite_none_right_eq_some,
      Option.map_eq_some_iff] at hbase
    obtain ⟨-, n, -, rfl⟩ := hbase
    exact simpleName_simpleName _
  · exact hnodes _ upper hinterface

/-- Surroundings in which all supertypes are declared by their simple names. -/
def Surroundings.HasSimpleSupertypes (around : Surroundings) : Prop :=
  ∀ name c, around.members? name = some c → c.HasSimpleSupertypes

namespace BreadthFirst

variable {around : Surroundings}

/-- Every class but the first one is visited by its simple name. -/
theorem simple (h : BreadthFirst around.table? start visits)
    (hsupertypes : around.HasSimpleSupertypes) {v : Visit} (hv : v ∈ visits) :
    v.name = start ∨ simpleName v.name = v.name := by
  obtain ⟨-, hway⟩ := h.found v hv
  generalize v.path = path, v.name = name at hway
  cases hway with
  | start => exact .inl rfl
  | @up _ lower _ c _ _ hc hplace =>
    refine .inr (hsupertypes lower c ?_ _ (List.mem_of_getElem? hplace))
    unfold Surroundings.table? at hc
    split at hc
    · cases hc
    · exact hc

/-- The names by which classes are visited, as far as they are simple, are names of known classes. -/
theorem mem_known (h : BreadthFirst around.table? start visits) {v : Visit} (hv : v ∈ visits)
    (hsimple : simpleName v.name = v.name) : v.name ∈ around.knownClasses.map Prod.fst := by
  obtain ⟨hc, -⟩ := h.found v hv
  unfold Surroundings.table? at hc
  split at hc
  · cases hc
  · rw [← hsimple]
    exact List.mem_map_of_mem (f := Prod.fst) (Surroundings.entry_mem_knownClasses hc)

/-- From a simple name no class is visited twice. -/
theorem nodup_simple (h : BreadthFirst around.table? start visits)
    (hsupertypes : around.HasSimpleSupertypes) (hstart : simpleName start = start) :
    (visits.map fun v => simpleName v.name).Nodup := by
  have hnames : visits.map (fun v => simpleName v.name) = visits.map Visit.name := by
    refine List.map_congr_left fun v hv => ?_
    rcases h.simple hsupertypes hv with heq | hsimple
    · rw [heq, hstart]
    · exact hsimple
  rw [hnames]
  exact h.once

/-- At most one class is visited twice. -/
theorem length_le (h : BreadthFirst around.table? start visits)
    (hsupertypes : around.HasSimpleSupertypes) :
    visits.length ≤ around.knownClasses.length + 1 := by
  have hothers : ((visits.map Visit.name).filter (· ≠ start)).length ≤
      around.knownClasses.length := by
    rw [← List.length_map Prod.fst]
    refine (List.subperm_of_subset (h.once.filter _) fun name hname => ?_).length_le
    obtain ⟨hmem, hother⟩ := List.mem_filter.1 hname
    obtain ⟨v, hv, rfl⟩ := List.mem_map.1 hmem
    exact h.mem_known hv ((h.simple hsupertypes hv).resolve_left (by simpa using hother))
  have hstart : ((visits.map Visit.name).filter (¬ · ≠ start)).length ≤ 1 := by
    have hcount := List.nodup_iff_count_le_one.1 h.once start
    rw [List.count_eq_length_filter] at hcount
    simpa [beq_eq_decide] using hcount
  have hsplit := List.length_eq_length_filter_add (l := visits.map Visit.name) (· ≠ start)
  rw [List.length_map] at hsplit
  simp only [ne_eq, decide_not, Bool.not_not] at *
  omega

end BreadthFirst

end Lookups

section Registries

open Registry

/-- Supertypes are simple names if they are in all signatures that can be found. -/
theorem Surroundings.hasSimpleSupertypes_of_entries {around : Surroundings}
    (hentries : ∀ entry ∈ around.registry.entries, ∀ c, entry.2.signature = some c →
      c.HasSimpleSupertypes)
    (hunit : ∀ c, around.unit = some c → c.HasSimpleSupertypes) : around.HasSimpleSupertypes := by
  intro name c hc
  obtain ⟨⟨_, _⟩, hmem, rfl⟩ := List.mem_map.1 (Surroundings.mem_knownClasses hc)
  rcases List.mem_append.1 hmem with hmem | hmem
  · obtain ⟨own, hown, heq⟩ := List.mem_map.1 hmem
    cases heq
    exact hunit _ (Option.mem_toList.1 hown)
  · obtain ⟨entry, hentry, heq⟩ := List.mem_filterMap.1 hmem
    obtain ⟨found, hsignature, heq⟩ := Option.map_eq_some_iff.1 heq
    cases heq
    exact hentries entry hentry _ hsignature

/-- However units are declared and generated, what their bodies are generated against has simple
names as supertypes. -/
theorem Generator.Session.hasSimpleSupertypes {options : GeneratorOptions}
    {parsed : List (Text × Except Failure Node)} {g : Generator}
    (h : Session options (signatures parsed) g) {around : Surroundings}
    (hregistry : around.registry = g.registry)
    (hunit : ∀ c, around.unit = some c → ∃ decl, c = .ofDecl decl) :
    around.HasSimpleSupertypes := by
  refine Surroundings.hasSimpleSupertypes_of_entries (fun entry hentry c hc => ?_) fun c hc => ?_
  · rw [hregistry] at hentry
    obtain ⟨path, cu, -, hsignature⟩ :=
      exists_of_mem_signatures ((h.sound entry hentry).signature c hc).1
    obtain ⟨decl, rfl⟩ : ∃ decl, c = .ofDecl decl := by
      unfold unitSignature? at hsignature
      split at hsignature
      · next decl _ =>
        split at hsignature
        · dsimp only at hsignature
          split at hsignature
          · cases hsignature
          · exact ⟨decl, (Option.some.inj hsignature).symm⟩
        · cases hsignature
      · cases hsignature
    exact ClassSignature.ofDecl_hasSimpleSupertypes decl
  · obtain ⟨decl, rfl⟩ := hunit c hc
    exact ClassSignature.ofDecl_hasSimpleSupertypes decl

namespace Surroundings

variable {around : Surroundings}

/-- How members are looked for in a class and its supertypes, whatever these are: unknown, repeated
or cyclic. -/
structure LooksUp (around : Surroundings) (start : Text) (visits : List Visit) : Prop where
  hierarchy_eq : around.hierarchy start = visits.map Visit.table
  /-- The class of every name that can be reached is visited once, superclasses before interfaces at
  each class and in the order of the first ways to the names. -/
  breadthFirst : BreadthFirst around.table? start visits
  /-- From a simple name no class is visited twice. -/
  once : around.HasSimpleSupertypes → simpleName start = start →
    (visits.map fun v => simpleName v.name).Nodup
  /-- From any name at most one class is visited twice. -/
  length_le : around.HasSimpleSupertypes → visits.length ≤ around.knownClasses.length + 1
  /-- A method is that of the first visited class that has one. -/
  method : ∀ name arity,
    FirstOf (fun c => c.method? name arity) visits (around.method? start name arity)
  method_none : ∀ name arity, around.method? start name arity = none ↔
    ∀ path upper c, Way around.table? start path upper → around.table? upper = some c →
      c.method? name arity = none
  /-- A field of the unit's own class is that of the first visited class that has one. -/
  field : start = around.ownName → ∀ name,
    FirstOf (fun c => (c.field? name).map fun f => (f, c)) visits (around.field? name)
  field_none : start = around.ownName → ∀ name, around.field? name = none ↔
    ∀ path upper c, Way around.table? start path upper → around.table? upper = some c →
      c.field? name = none

/-- Looking for members finds its way breadth first through all declared supertypes. In whatever
order units are declared and generated, the supertypes are simple names, so that no class is visited
twice from a simple name. -/
theorem lookups_breadth_first :
    (∀ (around : Surroundings) (start : Text), ∃ visits, around.LooksUp start visits) ∧
    ∀ (options : GeneratorOptions) (parsed : List (Text × Except Failure Node)) (g : Generator)
      (around : Surroundings), Generator.Session options (Generator.signatures parsed) g →
        around.registry = g.registry → (∀ c, around.unit = some c → ∃ decl, c = .ofDecl decl) →
        around.HasSimpleSupertypes := by
  refine ⟨fun around start => ?_, fun options parsed g around hg hregistry hunit =>
    hg.hasSimpleSupertypes hregistry hunit⟩
  obtain ⟨visits, hvisits, hfirst⟩ := breadthFirst_hierarchy around start
  exact ⟨visits,
    { hierarchy_eq := hvisits
      breadthFirst := hfirst
      once := hfirst.nodup_simple
      length_le := hfirst.length_le
      method := fun name arity => by
        rw [method?, hvisits]
        exact firstOf_findSome? _ visits
      method_none := fun name arity => by
        rw [method?, hvisits]
        exact hfirst.none_iff _
      field := fun hstart name => by
        rw [field?, ← hstart, hvisits]
        exact firstOf_findSome? _ visits
      field_none := fun hstart name => by
        rw [field?, ← hstart, hvisits]
        refine (hfirst.none_iff _).trans ?_
        simp only [Option.map_eq_none_iff] }⟩

/-- Two classes that extend each other. The second one has a field and names an interface of which
nothing is known. -/
def cyclicClasses : Surroundings where
  registry.entries :=
    [("A", { target := .placeholder "A" false
             signature := some { name := "A", isInterface := false, base := some "B" } }),
     ("B", { target := .placeholder "B" false
             signature := some
               { name := "B", isInterface := false, base := some "A", interfaces := ["Missing"]
                 fields := [{ name := "x", type := .int, isStatic := false }] } })]
  unit := some { name := "A", isInterface := false, base := some "B" }

/-- From its simple name the first class is visited once, and from a name with a package twice. -/
theorem lookups_breadth_first_of_cycle : cyclicClasses.HasSimpleSupertypes ∧
    (cyclicClasses.hierarchy "A").map ClassSignature.name = ["A", "B"].map Text.ofString ∧
    (cyclicClasses.hierarchy "p.A").map ClassSignature.name = ["A", "B", "A"].map Text.ofString ∧
    (∃ visits, cyclicClasses.LooksUp "A" visits ∧
      (visits.map fun v => simpleName v.name).Nodup) ∧
    ∃ visits, cyclicClasses.LooksUp "p.A" visits ∧ (visits.map Visit.name).Nodup := by
  have hsimple : cyclicClasses.HasSimpleSupertypes := by
    refine hasSimpleSupertypes_of_entries (fun entry hentry c hc => ?_) fun c hc => ?_
    · simp only [cyclicClasses, List.mem_cons, List.not_mem_nil, or_false] at hentry
      rcases hentry with rfl | rfl <;>
        · cases hc
          unfold ClassSignature.HasSimpleSupertypes
          decide
    · cases hc
      unfold ClassSignature.HasSimpleSupertypes
      decide
  obtain ⟨visits, hvisits⟩ := lookups_breadth_first.1 cyclicClasses "A"
  obtain ⟨visits', hvisits'⟩ := lookups_breadth_first.1 cyclicClasses "p.A"
  exact ⟨hsimple, by cbv, by cbv, ⟨visits, hvisits, hvisits.once hsimple (by decide)⟩,
    visits', hvisits', hvisits'.breadthFirst.once⟩

end Surroundings

end Registries

end JavaObjC
