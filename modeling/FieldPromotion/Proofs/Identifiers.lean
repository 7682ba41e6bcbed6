import FieldPromotion.Proofs.Traversal
import FieldPromotion.Proofs.TreeReading

/-!
# Traversals in order

A node is followed by what is below its parts, taken in the order in which they are declared. So a
traversal comes to every node once, in the order of the paths that lead to the nodes, and the
identifiers that it meets are those that stand in the JSON form of the tree, read from left to right.
-/

namespace FieldPromotion

/-! ## §1 Parts of a node -/

namespace Visit

def ofMember : Member → Visit
  | .field d => .fieldDecl d
  | .method d => .methodDecl d
  | .ctor d => .ctorDecl d

/-- The nodes directly below a node, in the order in which they are declared. -/
def parts : Visit → List Visit
  | .module m => m.statements.map .stmt
  | .stmt s =>
    match s with
    | .varDecl d => [.varDecl d]
    | .funDecl d => [.funDecl d]
    | .classDecl d => [.classDecl d]
    | .expr e _ => [.expr e]
    | .cond c t e _ => [.expr c, .stmt t] ++ e.toList.map .stmt
    | .loop c body _ => [.expr c, .stmt body]
    | .ret value _ => value.toList.map .expr
    | .block b => [.block b]
    | .empty _ => []
  | .varDecl d => [.ident d.name] ++ d.type.toList.map .typeExpr ++ d.init.toList.map .expr
  | .funDecl d =>
    [.ident d.name] ++ d.params.map .param ++ d.returns.toList.map .typeExpr ++ [.block d.body]
  | .classDecl d =>
    d.metadata.map .metadata ++ [.ident d.name] ++ d.superclass.toList.map .ident
      ++ d.members.map ofMember
  | .fieldDecl d =>
    d.metadata.map .metadata ++ [.ident d.name] ++ d.type.toList.map .typeExpr
      ++ d.init.toList.map .expr
  | .methodDecl d =>
    d.metadata.map .metadata ++ [.ident d.name] ++ d.params.map .param
      ++ d.returns.toList.map .typeExpr ++ d.body.toList.map .block
  | .ctorDecl d => d.params.map .param ++ [.block d.body]
  | .param p =>
    p.metadata.map .metadata ++ [.ident p.name] ++ p.type.toList.map .typeExpr
      ++ p.defaultValue.toList.map .expr
  | .metadata m => [.ident m.name] ++ m.args.map .expr
  | .block b => b.statements.map .stmt
  | .expr e =>
    match e with
    | .ident id => [.ident id]
    | .member object property _ => [.expr object, .ident property]
    | .call callee arguments _ => [.expr callee] ++ arguments.map .expr
    | .assign target value _ => [.expr target, .expr value]
    | _ => []
  | .typeExpr t =>
    match t with
    | .primitive _ _ => []
    | .named name _ => [.ident name]
    | .applied name args _ => [.ident name] ++ args.map .typeExpr
    | .array element _ => [.typeExpr element]
  | .ident _ => []

/-- The visits of a traversal that starts at a node and goes below all nodes. -/
def traversal : Visit → List Visit
  | .module m => m.visits everywhere
  | .stmt s => s.visits everywhere
  | .varDecl d => d.visits everywhere
  | .funDecl d => d.visits everywhere
  | .classDecl d => d.visits everywhere
  | .fieldDecl d => d.visits everywhere
  | .methodDecl d => d.visits everywhere
  | .ctorDecl d => d.visits everywhere
  | .param p => p.visits everywhere
  | .metadata m => m.visits everywhere
  | .block b => b.visits everywhere
  | .expr e => e.visits everywhere
  | .typeExpr t => t.visits everywhere
  | .ident id => [.ident id]

/-- An optional part is visited if it is there. -/
theorem ofOption_eq {α : Type} (visits : α → List Visit) (x : Option α) :
    ofOption visits x = x.toList.flatMap visits := by
  cases x <;> simp [ofOption]

/-- The traversal of a member is the list of its visits. -/
theorem traversal_ofMember (m : Member) : (ofMember m).traversal = m.visits everywhere := by
  cases m <;> simp [ofMember, traversal, Member.visits]

/-- A traversal that goes everywhere goes below every node. -/
theorem andBelow_everywhere (v : Visit) (below : List Visit) :
    v.andBelow everywhere below = v :: below := rfl

/-- A traversal starts with the node and goes through its parts one after the other. -/
theorem traversal_eq_cons (v : Visit) : v.traversal = v :: v.parts.flatMap traversal := by
  cases v with
  | module m =>
    simp [traversal, parts, Module.visits, andBelow_everywhere, Stmt.visitsAll_eq, List.flatMap_map]
  | stmt s =>
    cases s with
    | cond c t e span =>
      -- a traversal looks at the other branch before it goes on, so its cases come first
      cases e <;> simp [traversal, parts, Stmt.visits, andBelow_everywhere]
    | ret value span =>
      simp [traversal, parts, Stmt.visits, andBelow_everywhere, ofOption_eq, List.flatMap_map]
    | _ => simp [traversal, parts, Stmt.visits, andBelow_everywhere]
  | varDecl d =>
    simp [traversal, parts, VarDecl.visits, andBelow_everywhere, ofOption_eq, List.flatMap_map]
  | funDecl d =>
    cases d
    simp [traversal, parts, FunDecl.visits, andBelow_everywhere, ofOption_eq, List.flatMap_map]
  | classDecl d =>
    obtain ⟨_, _, _, _, members, _⟩ := d
    -- a member is no node of its own: it is visited as a field, a method or a constructor
    have hmembers : (members.map ofMember).flatMap traversal =
        members.flatMap (Member.visits everywhere) := by
      simp only [List.flatMap_map, traversal_ofMember]
    simp only [parts, List.flatMap_append, hmembers]
    simp [traversal, ClassDecl.visits, andBelow_everywhere, ofOption_eq, List.flatMap_map,
      Member.visitsAll_eq]
  | fieldDecl d =>
    simp [traversal, parts, FieldDecl.visits, andBelow_everywhere, ofOption_eq, List.flatMap_map]
  | methodDecl d =>
    obtain ⟨_, _, _, _, _, _, _, body, _⟩ := d
    cases body <;>
      simp [traversal, parts, MethodDecl.visits, andBelow_everywhere, ofOption_eq, List.flatMap_map]
  | ctorDecl d =>
    cases d
    simp [traversal, parts, CtorDecl.visits, andBelow_everywhere, List.flatMap_map]
  | param p =>
    simp [traversal, parts, Param.visits, andBelow_everywhere, ofOption_eq, List.flatMap_map]
  | metadata m =>
    simp [traversal, parts, Metadata.visits, andBelow_everywhere, Expr.visitsAll_eq,
      List.flatMap_map]
  | block b =>
    cases b
    simp [traversal, parts, Block.visits, andBelow_everywhere, Stmt.visitsAll_eq, List.flatMap_map]
  | expr e =>
    cases e <;>
      simp [traversal, parts, Expr.visits, andBelow_everywhere, Expr.visitsAll_eq, List.flatMap_map]
  | typeExpr t =>
    cases t <;>
      simp [traversal, parts, TypeExpr.visits, andBelow_everywhere, TypeExpr.visitsAll_eq,
        List.flatMap_map]
  | ident id => rfl

/-- What holds of a node whenever it holds of its parts holds of all nodes. -/
theorem induction_parts {P : Visit → Prop} (h : ∀ v, (∀ u ∈ v.parts, P u) → P v) (v : Visit) :
    P v := by
  -- on the number of visits, of which a node has one more than all its parts
  induction hn : v.traversal.length using Nat.strong_induction_on generalizing v with
  | _ n ih =>
    refine h v fun u hu => ih u.traversal.length ?_ u rfl
    have hle : u.traversal.length ≤ (v.parts.flatMap traversal).length :=
      (List.sublist_flatten_of_mem (List.mem_map_of_mem hu)).length_le
    rw [← hn, v.traversal_eq_cons, List.length_cons]
    omega

/-! ## §2 Paths -/

/-- The node at the end of a path: each number on the path chooses one of the parts. -/
def at? : Visit → List Nat → Option Visit
  | v, [] => some v
  | v, i :: path => v.parts[i]?.bind fun u => u.at? path

/-- The node at the end of a path whose first number chooses one of several nodes. -/
def atAny? (vs : List Visit) : List Nat → Option Visit
  | [] => none
  | i :: path => vs[i]?.bind fun v => v.at? path

end Visit

/-- The values that are found at the ends of paths, in the order of the paths. Nothing is found at the
end of any other path. -/
structure InPathOrder {α : Type} (find : List Nat → Option α) (paths : List (List Nat))
    (values : List α) : Prop where
  sorted : paths.Pairwise (· < ·)
  complete : ∀ path, path ∈ paths ↔ (find path).isSome
  found : paths.map find = values.map some

namespace InPathOrder

variable {α β : Type} {find : List Nat → Option α} {paths : List (List Nat)} {values : List α}

/-- Values may be left out or replaced. -/
theorem filterMap (h : InPathOrder find paths values) (f : α → Option β) :
    InPathOrder (fun path => (find path).bind f)
      (paths.filter fun path => ((find path).bind f).isSome) (values.filterMap f) where
  sorted := h.sorted.filter _
  complete path := by
    rw [List.mem_filter, h.complete]
    cases find path <;> simp
  found := by
    have hvalues : paths.filterMap find = values := by
      calc paths.filterMap find
        _ = (paths.map find).filterMap id := by rw [List.filterMap_map]; rfl
        _ = values := by rw [h.found, List.filterMap_map]; exact List.filterMap_some
    rw [← hvalues, List.filterMap_filterMap, List.map_filterMap_some_eq_filter_map_isSome,
      List.filter_map]
    rfl

end InPathOrder

namespace Visit

section Forest

variable {v : Visit} {vs : List Visit} {ps qs : List (List Nat)}

/-- A path into several nodes starts with the number of a node. -/
theorem exists_cons_of_mem (hqs : InPathOrder (atAny? vs) qs (vs.flatMap traversal))
    {q : List Nat} (hq : q ∈ qs) : ∃ i path, q = i :: path := by
  cases q with
  | nil => simp [hqs.complete, atAny?] at hq
  | cons i path => exact ⟨i, path, rfl⟩

/-- One more node in front moves the numbers up by one. -/
theorem cons_mem_map_modifyHead (hqs : InPathOrder (atAny? vs) qs (vs.flatMap traversal)) {i : Nat}
    {path : List Nat} :
    i :: path ∈ qs.map (List.modifyHead (· + 1)) ↔ ∃ j, i = j + 1 ∧ j :: path ∈ qs := by
  rw [List.mem_map]
  constructor
  · rintro ⟨q, hq, heq⟩
    obtain ⟨j, path', rfl⟩ := exists_cons_of_mem hqs hq
    cases heq
    exact ⟨j, rfl, hq⟩
  · rintro ⟨j, rfl, hq⟩
    exact ⟨j :: path, hq, rfl⟩

/-- With one more node in front, the paths through it come first, and the other paths choose a later
node. -/
theorem inPathOrder_cons (hps : InPathOrder v.at? ps v.traversal)
    (hqs : InPathOrder (atAny? vs) qs (vs.flatMap traversal)) :
    InPathOrder (atAny? (v :: vs)) (ps.map (0 :: ·) ++ qs.map (List.modifyHead (· + 1)))
      ((v :: vs).flatMap traversal) where
  sorted := by
    rw [List.pairwise_append, List.pairwise_map, List.pairwise_map]
    -- among the paths through the first node, among the others, and from the former to the latter
    refine ⟨?_, ?_, ?_⟩
    · exact hps.sorted.imp fun hlt => by simpa [List.cons_lt_cons_iff] using hlt
    · refine hqs.sorted.imp_of_mem ?_
      intro q q' hq hq' hlt
      obtain ⟨i, path, rfl⟩ := exists_cons_of_mem hqs hq
      obtain ⟨j, path', rfl⟩ := exists_cons_of_mem hqs hq'
      simpa [List.cons_lt_cons_iff] using hlt
    · intro p hp q hq
      obtain ⟨p', -, rfl⟩ := List.mem_map.mp hp
      obtain ⟨q', hq', rfl⟩ := List.mem_map.mp hq
      obtain ⟨i, path, rfl⟩ := exists_cons_of_mem hqs hq'
      simp [List.cons_lt_cons_iff]
  complete path := by
    cases path with
    | nil =>
      have hnil : [] ∉ qs := by simp [hqs.complete, atAny?]
      simpa [atAny?] using hnil
    | cons i path =>
      rw [List.mem_append, cons_mem_map_modifyHead hqs]
      cases i with
      | zero => simp [atAny?, hps.complete]
      | succ i => simp [hqs.complete, atAny?]
  found := by
    rw [List.map_append, List.flatMap_cons, List.map_append, List.map_map, List.map_map,
      ← hps.found, ← hqs.found]
    refine congrArg₂ (· ++ ·) rfl (List.map_congr_left ?_)
    intro q hq
    obtain ⟨i, path, rfl⟩ := exists_cons_of_mem hqs hq
    rfl

/-- If each of several nodes is visited in path order, so are all of them, one after the other. -/
theorem exists_inPathOrder_atAny (h : ∀ v ∈ vs, ∃ paths, InPathOrder v.at? paths v.traversal) :
    ∃ paths, InPathOrder (atAny? vs) paths (vs.flatMap traversal) := by
  induction vs with
  | nil =>
    refine ⟨[], List.Pairwise.nil, ?_, rfl⟩
    intro path
    cases path <;> simp [atAny?]
  | cons v vs ih =>
    rw [List.forall_mem_cons] at h
    obtain ⟨⟨ps, hps⟩, hvs⟩ := h
    obtain ⟨qs, hqs⟩ := ih hvs
    exact ⟨_, inPathOrder_cons hps hqs⟩

end Forest

/-- A traversal comes to every node once, in the order of the paths to the nodes. -/
theorem exists_inPathOrder (v : Visit) : ∃ paths, InPathOrder v.at? paths v.traversal := by
  induction v using induction_parts with
  | h v ih =>
    obtain ⟨paths, hpaths⟩ := exists_inPathOrder_atAny ih
    -- the path to the node itself is empty, and it comes before the paths to what is below
    have hnil : [] ∉ paths := by simp [hpaths.complete, atAny?]
    refine ⟨[] :: paths, ?_, ?_, ?_⟩
    · refine List.pairwise_cons.mpr ⟨?_, hpaths.sorted⟩
      intro path hpath
      cases path with
      | nil => exact absurd hpath hnil
      | cons i path => exact List.nil_lt_cons i path
    · intro path
      cases path with
      | nil => simp [at?]
      | cons i path =>
        have := hpaths.complete (i :: path)
        simpa [at?, atAny?] using this
    · rw [traversal_eq_cons, List.map_cons, List.map_cons, ← hpaths.found]
      refine congrArg (List.cons (some v)) (List.map_congr_left ?_)
      intro path hpath
      cases path with
      | nil => exact absurd hpath hnil
      | cons i path => rfl

end Visit

/-! ## §3 Identifiers in JSON -/

namespace Json

mutual

/-- A value and all values inside it, from left to right. -/
def values : Json → List Json
  | .arr items => .arr items :: valuesOfItems items
  | .obj entries => .obj entries :: valuesOfEntries entries
  | j => [j]

def valuesOfItems : List Json → List Json
  | [] => []
  | x :: xs => x.values ++ valuesOfItems xs

def valuesOfEntries : List (String × Json) → List Json
  | [] => []
  | (_, x) :: xs => x.values ++ valuesOfEntries xs

end

def string? : Json → Option String
  | .str s => some s
  | _ => none

/-- The name in an object that has a name, which is a string, a span, and nothing else. -/
def identName? : Json → Option String
  | .obj [(k, x), (l, y)] =>
    -- the keys of an object are in no particular order
    if k = "name" ∧ l = "span" then x.string?
    else if k = "span" ∧ l = "name" then y.string?
    else none
  | _ => none

/-- The objects in a value that look like identifiers, from left to right. -/
def identObjects (j : Json) : List Json :=
  j.values.filter fun x => x.identName?.isSome

theorem valuesOfItems_eq (items : List Json) : valuesOfItems items = items.flatMap values := by
  induction items with
  | nil => rfl
  | cons x xs ih => rw [valuesOfItems, ih, List.flatMap_cons]

theorem valuesOfEntries_eq (entries : List (String × Json)) :
    valuesOfEntries entries = entries.flatMap fun e => e.2.values := by
  induction entries with
  | nil => rfl
  | cons x xs ih => rw [valuesOfEntries, ih, List.flatMap_cons]

/-- The identifiers of an array are those of its items. -/
@[simp] theorem identObjects_arr (items : List Json) :
    identObjects (.arr items) = items.flatMap identObjects := by
  rw [identObjects, values, valuesOfItems_eq, List.filter_cons_of_neg (by simp [identName?]),
    List.filter_flatMap]
  rfl

/-- An object may be an identifier itself, and has those of its entries. -/
@[simp] theorem identObjects_obj (entries : List (String × Json)) :
    identObjects (.obj entries) =
      (if (Json.obj entries).identName?.isSome then [.obj entries] else [])
        ++ entries.flatMap fun e => e.2.identObjects := by
  rw [identObjects, values, valuesOfEntries_eq, List.filter_cons, List.filter_flatMap]
  split <;> rfl

@[simp] theorem identObjects_null : identObjects .null = [] := by
  simp [identObjects, values, identName?]

@[simp] theorem identObjects_bool (b : Bool) : identObjects (.bool b) = [] := by
  simp [identObjects, values, identName?]

@[simp] theorem identObjects_int (i : Int) : identObjects (.int i) = [] := by
  simp [identObjects, values, identName?]

@[simp] theorem identObjects_nat (n : Nat) : identObjects (.nat n) = [] :=
  identObjects_int n

@[simp] theorem identObjects_float (x : Float) : identObjects (.float x) = [] := by
  simp [identObjects, values, identName?]

@[simp] theorem identObjects_str (s : String) : identObjects (.str s) = [] := by
  simp [identObjects, values, identName?]

@[simp] theorem identObjects_ofOption {α : Type} (f : α → Json) (x : Option α) :
    identObjects (.ofOption f x) = x.toList.flatMap fun a => (f a).identObjects := by
  cases x <;> simp [Json.ofOption]

@[simp] theorem identObjects_ofList {α : Type} (f : α → Json) (xs : List α) :
    identObjects (.ofList f xs) = xs.flatMap fun a => (f a).identObjects := by
  simp [Json.ofList, List.flatMap_map]

end Json

@[simp] theorem Span.identObjects_toJson (s : Span) : s.toJson.identObjects = [] := by
  simp [Span.toJson, Json.identName?]

/-- An identifier has no other one in it. -/
@[simp] theorem Ident.identObjects_toJson (id : Ident) : id.toJson.identObjects = [id.toJson] := by
  simp [Ident.toJson, Json.identName?, Json.string?]

namespace Visit

/-- The JSON form of a node. -/
def toJson : Visit → Json
  | .module m => m.toJson
  | .stmt s => s.toJson
  | .varDecl d => d.toJson
  | .funDecl d => d.toJson
  | .classDecl d => d.toJson
  | .fieldDecl d => d.toJson
  | .methodDecl d => d.toJson
  | .ctorDecl d => d.toJson
  | .param p => p.toJson
  | .metadata m => m.toJson
  | .block b => b.toJson
  | .expr e => e.toJson
  | .typeExpr t => t.toJson
  | .ident id => id.toJson

theorem identObjects_toJson_ofMember (m : Member) :
    (ofMember m).toJson.identObjects = m.toJson.identObjects := by
  cases m <;> simp [ofMember, toJson, Member.toJson, Json.identName?]

/-- No object looks like an identifier but the identifiers themselves. -/
theorem identObjects_toJson_eq (v : Visit) :
    v.toJson.identObjects =
      v.ident?.toList.map Ident.toJson ++ v.parts.flatMap fun u => u.toJson.identObjects := by
  cases v with
  | module m =>
    simp [toJson, parts, ident?, Module.toJson, Json.identName?, Stmt.listToJson_eq,
      List.flatMap_map]
  | stmt s =>
    cases s with
    | cond c t e span =>
      cases e <;> simp [toJson, parts, ident?, Stmt.toJson, Json.identName?]
    | _ => simp [toJson, parts, ident?, Stmt.toJson, Json.identName?, List.flatMap_map]
  | varDecl d =>
    simp [toJson, parts, ident?, VarDecl.toJson, Storage.toJson, Json.identName?, List.flatMap_map]
  | funDecl d =>
    cases d
    simp [toJson, parts, ident?, FunDecl.toJson, Json.identName?, List.flatMap_map]
  | classDecl d =>
    obtain ⟨_, _, _, _, members, _⟩ := d
    -- a member is wrapped once more, which adds no identifier
    have hmembers : ((members.map ofMember).flatMap fun u => u.toJson.identObjects) =
        members.flatMap fun m => m.toJson.identObjects := by
      simp only [List.flatMap_map, identObjects_toJson_ofMember]
    simp only [parts, List.flatMap_append, hmembers]
    simp [toJson, ident?, ClassDecl.toJson, Json.identName?, Member.listToJson_eq,
      List.flatMap_map]
  | fieldDecl d =>
    simp [toJson, parts, ident?, FieldDecl.toJson, Storage.toJson, Visibility.toJson,
      Json.identName?, List.flatMap_map]
  | methodDecl d =>
    obtain ⟨_, _, _, _, _, _, _, body, _⟩ := d
    cases body <;>
      simp [toJson, parts, ident?, MethodDecl.toJson, Block.optionToJson, Visibility.toJson,
        Json.identName?, List.flatMap_map]
  | ctorDecl d =>
    cases d
    simp [toJson, parts, ident?, CtorDecl.toJson, Json.identName?, List.flatMap_map]
  | param p =>
    simp [toJson, parts, ident?, Param.toJson, Modifier.toJson, Keyword.toJson, Json.identName?,
      List.flatMap_map]
  | metadata m =>
    simp [toJson, parts, ident?, Metadata.toJson, Json.identName?, List.flatMap_map]
  | block b =>
    cases b
    simp [toJson, parts, ident?, Block.toJson, Json.identName?, Stmt.listToJson_eq,
      List.flatMap_map]
  | expr e =>
    cases e <;>
      simp [toJson, parts, ident?, Expr.toJson, Json.identName?, Expr.argsToJson_eq,
        List.flatMap_map]
  | typeExpr t =>
    cases t <;>
      simp [toJson, parts, ident?, TypeExpr.toJson, Primitive.toJson, Json.identName?,
        TypeExpr.argsToJson_eq, List.flatMap_map]
  | ident id => simp [toJson, parts, ident?]

/-- The identifiers of a traversal are the objects of the JSON form that look like identifiers. -/
theorem identObjects_toJson (v : Visit) :
    v.toJson.identObjects = (v.traversal.filterMap ident?).map Ident.toJson := by
  induction v using induction_parts with
  | h v ih =>
    rw [identObjects_toJson_eq, traversal_eq_cons, List.filterMap_cons, List.filterMap_flatMap]
    have hparts : (v.parts.flatMap fun u => u.toJson.identObjects) =
        (v.parts.flatMap fun u => u.traversal.filterMap ident?).map Ident.toJson := by
      rw [List.map_flatMap]
      exact List.flatMap_congr ih
    -- what is left is the node itself, which may be an identifier
    rw [hparts]
    cases v.ident? <;> simp

end Visit

/-- The names of the objects that look like identifiers. -/
theorem Json.filterMap_identName? {j : Json} {ids : List Ident}
    (h : j.identObjects = ids.map Ident.toJson) :
    j.values.filterMap Json.identName? = ids.map Ident.name := by
  calc j.values.filterMap Json.identName?
    _ = j.identObjects.filterMap Json.identName? := by
      rw [Json.identObjects, List.filterMap_filter]
      refine List.filterMap_congr fun x _ => ?_
      cases x.identName? <;> rfl
    _ = ids.filterMap fun id => some id.name := by
      rw [h, List.filterMap_map]
      rfl
    _ = ids.map Ident.name := by rw [List.filterMap_eq_map']

/-- A traversal of a module meets its identifiers in the order of the paths to them, and they are
those of the JSON form from left to right. -/
theorem Module.identifiers_in_order (m : Module) :
    (∃ paths, InPathOrder (fun path => ((Visit.module m).at? path).bind Visit.ident?) paths
      m.identifiers) ∧
    m.toJson.identObjects = m.identifiers.map Ident.toJson ∧
    m.toJson.values.filterMap Json.identName? = m.identifiers.map Ident.name := by
  obtain ⟨paths, hpaths⟩ := (Visit.module m).exists_inPathOrder
  have hjson : m.toJson.identObjects = m.identifiers.map Ident.toJson :=
    (Visit.module m).identObjects_toJson
  exact ⟨⟨_, hpaths.filterMap Visit.ident?⟩, hjson, Json.filterMap_identName? hjson⟩

end FieldPromotion
