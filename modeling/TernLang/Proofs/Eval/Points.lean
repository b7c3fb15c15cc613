import TernLang.Proofs.Eval.Parallel
import TernLang.Proofs.Syntax.Throughout
import TernLang.Proofs.Value.Guarded

-- The points of a run. At each of them a node is evaluated, or a target is bound, in the state that
-- the run has reached by then. A point leads to those that come up in the course of its own.

namespace TernLang

-- The nodes that a node has evaluated first, one after the other, whatever their values are.
def Node.operands : Node → List Node
  | program _ (.list ns) | block _ (.list ns) | array _ (.list ns) | tuple _ (.list ns) => ns
  | compare _ _ a b | binary _ _ a b | index _ a b => [a, b]
  | unary _ _ a | member _ a _ | convert _ a _ | assign _ _ a | call _ a _ | conditional _ a _ _
  | cases _ a _ => [a]
  | declare _ _ a => a.toList
  | _ => []

theorem Node.operands_subset_children (n : Node) : n.operands ⊆ n.children := by
  cases n with
  | program _ items | block _ items | array _ items | tuple _ items | call _ _ items
  | cases _ _ items => cases items <;> simp [operands, children]
  | _ => simp [operands, children]

namespace Eval

-- What is done at a point.
inductive Task where
  -- A node is evaluated, where so many more calls may stand inside each other.
  | eval (room : Nat) (node : Node)
  | bind (way : Binding) (target : Node) (value : Option Value)

-- The state after a node was reported.
def visited (level : Int) (node : Node) (s : State) : State :=
  match node.place? with
  | some place => emitted level (.visited node.typeName place) s
  | none => s

@[simp]
theorem scopes_visited (level : Int) (node : Node) (s : State) :
    (visited level node s).scopes = s.scopes := by
  unfold visited
  split
  · exact scopes_emitted ..
  · rfl

-- The state in which the first operand of a node comes up. A block has opened its scope by then.
def entered (level : Int) (node : Node) (s : State) : State :=
  match node with
  | .block .. => { visited level node s with scopes := (visited level node s).scopes.push .empty }
  | _ => visited level node s

section Lists

variable (level : Int) (call : Caller)

-- The nodes of a list are evaluated one after the other, and one of them comes up.
inductive Reaches : List Node → State → Node → State → Prop where
  | here {node : Node} {nodes : List Node} {s : State} : Reaches (node :: nodes) s node s
  | later {node m : Node} {nodes : List Node} {v : Value} {s t u : State}
    (first : eval level call node s = .ok v t) (rest : Reaches nodes t m u) :
    Reaches (node :: nodes) s m u

-- The parameters of a function are gone through, and the type of one of them comes up.
inductive ReachesType : List Node → State → Node → State → Prop where
  | here {place : Place} {name : Tree} {type : Node} {nodes : List Node} {s : State} :
    ReachesType (.parameter place name (some type) :: nodes) s type s
  | later {place : Place} {name : Tree} {type : Option Node} {m : Node} {nodes : List Node}
    {v : Option Value} {s t u : State} (first : evalSome level call type s = .ok v t)
    (rest : ReachesType nodes t m u) : ReachesType (.parameter place name type :: nodes) s m u

-- The arms from a position on are gone through for a value, and a label comes up, or the body of
-- the first arm whose label is that of the value.
inductive ReachesArm (value : Value) : Nat → List Node → State → Node → State → Prop where
  | label {position : Nat} {place : Place} {label body : Node} {arms : List Node} {s : State} :
    ReachesArm value position (.arm place label body :: arms) s label s
  | body {position : Nat} {place : Place} {label body : Node} {arms : List Node} {v : Value}
    {s t u : State} (first : eval level call label s = .ok v t)
    (hit : isLabelOf v value = .ok true)
    (reported : emit level (.matched value position) t = .ok () u) :
    ReachesArm value position (.arm place label body :: arms) s body u
  | later {position : Nat} {place : Place} {label body m : Node} {arms : List Node} {v : Value}
    {s t u : State} (first : eval level call label s = .ok v t)
    (missed : isLabelOf v value = .ok false)
    (rest : ReachesArm value (position + 1) arms t m u) :
    ReachesArm value position (.arm place label body :: arms) s m u

-- Targets are bound to values one after the other, and one of them comes up.
inductive ReachesTarget (way : Binding) :
    List Node → List (Option Value) → State → Node → Option Value → State → Prop where
  | here {target : Node} {targets : List Node} {value : Option Value}
    {values : List (Option Value)} {s : State} :
    ReachesTarget way (target :: targets) (value :: values) s target value s
  | later {target m : Node} {targets : List Node} {value w : Option Value}
    {values : List (Option Value)} {s t u : State}
    (first : bind level way target value s = .ok () t)
    (rest : ReachesTarget way targets values t m w u) :
    ReachesTarget way (target :: targets) (value :: values) s m w u

end Lists

-- The values that the parts of a tuple of so many targets are bound to, if there are that many.
def partsOf (targets : Nat) : Option Value → Option (List (Option Value))
  | none => some (List.replicate targets none)
  | some (.tuple items) => if items.length = targets then some (items.map Value.given) else none
  | some _ => none

-- A point leads to another one: that is where the run comes to while it is at the first. `limit` is
-- the number of calls that may stand inside each other at all.
inductive Leads (level limit : Int) : Task → State → Task → State → Prop where
  | operand {room : Nat} {node m : Node} {s t : State}
    (reached : Reaches level (invoke level limit room) node.operands (entered level node s) m t) :
    Leads level limit (.eval room node) s (.eval room m) t
  | argument {room : Nat} {place : Place} {f m : Node} {args : List Node} {callee : Value}
    {s t u : State}
    (function : eval level (invoke level limit room) f
      (entered level (.call place f (.list args)) s) = .ok callee t)
    (reached : Reaches level (invoke level limit room) args t m u) :
    Leads level limit (.eval room (.call place f (.list args))) s (.eval room m) u
  -- A statement in the body of a function that is called.
  | body {room : Nat} {place q : Place} {f m : Node} {args : Items Node} {statements : List Node}
    {p : Procedure Value} {values : List Value} {frame : Frame Value} {s t u w x : State}
    (function : eval level (invoke level limit (room + 1)) f
      (entered level (.call place f args) s) = .ok (.function p) t)
    (arguments : evalItems level (invoke level limit (room + 1)) args t = .ok values u)
    (bound : p.frame values = .ok frame)
    (reported : emit level (.called p.name values) u = .ok () w)
    (block : p.body = .block q (.list statements))
    (reached : Reaches level (invoke level limit room) statements
      { w with scopes := w.scopes.push frame } m x) :
    Leads level limit (.eval (room + 1) (.call place f args)) s (.eval room m) x
  | assign {room : Nat} {place : Place} {target value : Node} {v : Value} {s t : State}
    (evaluated : eval level (invoke level limit room) value
      (entered level (.assign place target value) s) = .ok v t) :
    Leads level limit (.eval room (.assign place target value)) s (.bind .assign target v.given) t
  | declare {room : Nat} {place : Place} {target : Node} {value : Option Node} {v : Option Value}
    {s t : State}
    (evaluated : evalSome level (invoke level limit room) value
      (entered level (.declare place target value) s) = .ok v t) :
    Leads level limit (.eval room (.declare place target value)) s
      (.bind .declare target (v.bind Value.given)) t
  -- The type of a parameter, and then that of the result.
  | type {room : Nat} {place : Place} {name : Tree} {parameters : List Node} {result : Option Node}
    {body m : Node} {s t : State}
    (reached : ReachesType level (invoke level limit room) parameters
      (entered level (.function place name (.list parameters) result body) s) m t) :
    Leads level limit (.eval room (.function place name (.list parameters) result body)) s
      (.eval room m) t
  | result {room : Nat} {place : Place} {name : Tree} {parameters : Items Node}
    {result body : Node} {samples : List (Tree × Option Value)} {s t : State}
    (evaluated : evalParameterItems level (invoke level limit room) parameters
      (entered level (.function place name parameters (some result) body) s) = .ok samples t) :
    Leads level limit (.eval room (.function place name parameters (some result) body)) s
      (.eval room result) t
  | thenBlock {room : Nat} {place : Place} {condition thenBlock : Node} {elseBlock : Option Node}
    {s t u : State}
    (tested : eval level (invoke level limit room) condition
      (entered level (.conditional place condition thenBlock elseBlock) s) = .ok (.bool true) t)
    (reported : emit level (.tested (.bool true)) t = .ok () u) :
    Leads level limit (.eval room (.conditional place condition thenBlock elseBlock)) s
      (.eval room thenBlock) u
  | elseBlock {room : Nat} {place : Place} {condition thenBlock elseBlock : Node} {s t u : State}
    (tested : eval level (invoke level limit room) condition
      (entered level (.conditional place condition thenBlock (some elseBlock)) s) =
        .ok (.bool false) t)
    (reported : emit level (.tested (.bool false)) t = .ok () u) :
    Leads level limit (.eval room (.conditional place condition thenBlock (some elseBlock))) s
      (.eval room elseBlock) u
  | arm {room : Nat} {place : Place} {scrutinee m : Node} {arms : List Node} {v : Value}
    {s t u : State}
    (evaluated : eval level (invoke level limit room) scrutinee
      (entered level (.cases place scrutinee (.list arms)) s) = .ok v t)
    (reached : ReachesArm level (invoke level limit room) v 0 arms t m u) :
    Leads level limit (.eval room (.cases place scrutinee (.list arms))) s (.eval room m) u
  | target {way : Binding} {place : Place} {targets : List Node} {value w : Option Value}
    {values : List (Option Value)} {m : Node} {s t : State}
    (parts : partsOf targets.length value = some values)
    (reached : ReachesTarget level way targets values s m w t) :
    Leads level limit (.bind way (.tuple place (.list targets)) value) s (.bind way m w) t

-- At a point a method is called that gives the length of its receiver, which has so many parts.
inductive TakesLength (level limit : Int) : Task → State → Nat → Prop where
  | call {room n : Nat} {place : Place} {f : Node} {args : Items Node} {m : Method}
    {receiver : Value} {bound values : List Value} {s t u : State}
    (function : eval level (invoke level limit room) f
      (entered level (.call place f args) s) = .ok (.method m receiver bound) t)
    (arguments : evalItems level (invoke level limit room) args t = .ok values u)
    (length : m.length? receiver = some n) :
    TakesLength level limit (.eval room (.call place f args)) s n

theorem Reaches.mem {level : Int} {call : Caller} {nodes : List Node} {s t : State} {m : Node}
    (h : Reaches level call nodes s m t) : m ∈ nodes := by
  induction h with
  | here => exact List.mem_cons_self
  | later _ _ ih => exact List.mem_cons_of_mem _ ih

theorem ReachesType.exists_parameter {level : Int} {call : Caller} {nodes : List Node} {s t : State}
    {m : Node} (h : ReachesType level call nodes s m t) :
    ∃ parameter ∈ nodes, m ∈ parameter.children := by
  induction h with
  | here => exact ⟨_, List.mem_cons_self, by simp [Node.children]⟩
  | later _ _ ih =>
    obtain ⟨parameter, hmem, hbelow⟩ := ih
    exact ⟨parameter, List.mem_cons_of_mem _ hmem, hbelow⟩

theorem ReachesArm.exists_arm {level : Int} {call : Caller} {value : Value} {position : Nat}
    {arms : List Node} {s t : State} {m : Node}
    (h : ReachesArm level call value position arms s m t) : ∃ arm ∈ arms, m ∈ arm.children := by
  induction h with
  | label => exact ⟨_, List.mem_cons_self, by simp [Node.children]⟩
  | body => exact ⟨_, List.mem_cons_self, by simp [Node.children]⟩
  | later _ _ _ ih =>
    obtain ⟨arm, hmem, hbelow⟩ := ih
    exact ⟨arm, List.mem_cons_of_mem _ hmem, hbelow⟩

-- What is evaluated for a node stands below it in the tree, or in the body of a function that is
-- called.
theorem Leads.below {level limit : Int} {room room' : Nat} {node m : Node} {s t : State}
    (h : Leads level limit (.eval room node) s (.eval room' m) t) :
    room = room' + 1 ∨ room = room' ∧
      (m ∈ node.children ∨ ∃ n ∈ node.children, m ∈ n.children) := by
  cases h with
  | operand reached => exact .inr ⟨rfl, .inl (node.operands_subset_children reached.mem)⟩
  | argument _ reached => exact .inr ⟨rfl, .inl (List.mem_cons_of_mem _ reached.mem)⟩
  | body => exact .inl rfl
  | type reached =>
    obtain ⟨parameter, hmem, hbelow⟩ := reached.exists_parameter
    exact .inr ⟨rfl, .inr ⟨parameter, by simp [Node.children, hmem], hbelow⟩⟩
  | @result _ _ _ parameters =>
    exact .inr ⟨rfl, .inl (by cases parameters <;> simp [Node.children])⟩
  | thenBlock | elseBlock => exact .inr ⟨rfl, .inl (by simp [Node.children])⟩
  | arm _ reached =>
    obtain ⟨arm, hmem, hbelow⟩ := reached.exists_arm
    exact .inr ⟨rfl, .inr ⟨arm, List.mem_cons_of_mem _ hmem, hbelow⟩⟩

theorem Leads.everywhere {level limit : Int} {room : Nat} {node m : Node} {s t : State}
    {P : Node → Prop} (h : Leads level limit (.eval room node) s (.eval room m) t)
    (hnode : node.Everywhere P) : m.Everywhere P := by
  rcases h.below with hroom | ⟨-, hchild | ⟨n, hn, hchild⟩⟩
  · omega
  · exact hnode.below m hchild
  · exact (hnode.below n hn).below m hchild

-- The points of a run of a program that starts in a state: the statements for which there is room
-- on the stack, and all that these lead to.
inductive Visits [Machine] (settings : Settings) (program : Node)
    (s : State) : Task → State → Prop where
  | statement {depth : Int} {statements : List Node} {m : Node} {t : State}
    (body : program.body? = some (.list statements)) (stack : settings.checkStack = .ok depth)
    (reached : Reaches settings.level (invoke settings.level depth depth.toNat)
      (statements.takeWhile (Settings.hasRoom depth))
      (emitted settings.level (.started statements.length) s) m t) :
    Visits settings program s (.eval depth.toNat m) t
  | later {depth : Int} {task next : Task} {t u : State}
    (visited : Visits settings program s task t)
    (stack : settings.checkStack = .ok depth)
    (leads : Leads settings.level depth task t next u) : Visits settings program s next u

end Eval

end TernLang
