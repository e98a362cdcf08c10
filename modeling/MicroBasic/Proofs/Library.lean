import MicroBasic.Host.Library

/-!
# The standard library obeys every rule of the heap

The functions of the standard library look at the elements of arrays, exchange them and make new
arrays. They do nothing else to the heap, and their results are numbers, texts, arrays, what they
were given and what they found in an array. Of the world outside they see the clock and the source
of random numbers. So a rule that all this keeps is one that the library keeps, whatever it says.
-/

namespace MicroBasic

/-- A rule about heaps, about the values that come with them and about the world outside, that is
kept by work on arrays, by reading the clock and by drawing random numbers. -/
structure HeapRule where
  /-- What is true of every heap. -/
  Inv : Heap → Prop
  /-- The values that may occur. -/
  Val : Value → Prop
  number : ∀ {value}, Val (.number value)
  text : ∀ {value}, Val (.text value)
  array : ∀ {ref}, Val (.array ref)
  items : ∀ {heap ref value}, Inv heap → value ∈ heap.items ref → Val value
  setItems : ∀ {heap ref items}, Inv heap → (∀ value ∈ items, Val value) →
    Inv (heap.setItems ref items)
  newArray : ∀ {heap items}, Inv heap → (∀ value ∈ items, Val value) → Inv (heap.newArray items).2
  /-- What is true of every world. -/
  Outside : World → Prop
  /-- What may be needed from outside. -/
  Needs : Awaited → Prop
  random : ∀ {world}, Outside world → Outside world.random.2
  clock : ∀ {world}, Outside world →
    match world.readClock with
    | (.ok _, next) => Outside next
    | (.error what, _) => Needs what

/-- A rule is true of what a function of the host sees. -/
def HeapRule.Holds (rule : HeapRule) (state : HostState) : Prop :=
  rule.Inv state.heap ∧ rule.Outside state.world

/-- The rule that forbids nothing. -/
def HeapRule.free : HeapRule where
  Inv _ := True
  Val _ := True
  number := trivial
  text := trivial
  array := trivial
  items _ _ := trivial
  setItems _ _ := trivial
  newArray _ _ := trivial
  Outside _ := True
  Needs _ := True
  random _ := trivial
  clock _ := by split <;> trivial

/-- How work of the host may end under a rule. -/
def HeapRule.Ends {α : Type} (rule : HeapRule) (Good : α → Prop) :
    EStateM.Result HostStop HostState α → Prop
  | .ok value next => Good value ∧ rule.Holds next
  | .error (.fault _) next => rule.Holds next
  | .error (.awaiting what) _ => rule.Needs what

/-- Where a rule holds, work keeps it. -/
def HostAction.Serves {α : Type} (rule : HeapRule) (Good : α → Prop) (work : HostAction α) : Prop :=
  ∀ state, rule.Holds state → rule.Ends Good (work state)

/-- A function of the host keeps a rule. -/
def HostBody.Serves (rule : HeapRule) (body : HostBody) : Prop :=
  ∀ args : List Value, (∀ value ∈ args, rule.Val value) →
    HostAction.Serves rule rule.Val (body args)

namespace HostAction.Serves

variable {α β : Type} {rule : HeapRule} {Good : α → Prop} {Last : β → Prop}

theorem pure {value : α} (known : Good value) : Serves rule Good (Pure.pure value) :=
  fun _ inv => ⟨known, inv⟩

theorem bind {work : HostAction α} {rest : α → HostAction β} (first : Serves rule Good work)
    (second : ∀ value, Good value → Serves rule Last (rest value)) :
    Serves rule Last (work >>= rest) := by
  intro state inv
  have ends := first state inv
  simp only [Bind.bind, EStateM.bind]
  match work state, ends with
  | .ok value next, ends => exact second value ends.1 next ends.2
  | .error (.fault _) next, ends | .error (.awaiting _) next, ends => exact ends

theorem fail {cause : HostFault} : Serves rule Good (Library.fail cause) :=
  fun _ inv => inv

theorem getHeap {rest : Heap → HostAction β}
    (second : ∀ heap, rule.Inv heap → Serves rule Last (rest heap)) :
    Serves rule Last (Library.getHeap >>= rest) :=
  fun state inv => second state.heap inv.1 state inv

theorem modifyHeap {change : Heap → Heap} (kept : ∀ heap, rule.Inv heap → rule.Inv (change heap)) :
    Serves rule (fun _ => True) (Library.modifyHeap change) :=
  fun _ inv => ⟨trivial, kept _ inv.1, inv.2⟩

theorem newArray {items : Array Value} (known : ∀ value ∈ items, rule.Val value) :
    Serves rule rule.Val (Library.newArray items) :=
  fun _ inv => ⟨rule.array, rule.newArray inv.1 known, inv.2⟩

theorem map {work : HostAction β} {γ : Type} {function : β → γ} (serves : Serves rule Last work) :
    Serves rule (fun _ => True) (function <$> work) := by
  rw [map_eq_pure_bind]
  exact serves.bind fun _ _ => .pure trivial

end HostAction.Serves

namespace Library

open HostAction (Serves)

variable {rule : HeapRule} {name : String} {value : Value}

theorem failKind_serves {α : Type} {Good : α → Prop} {wanted : String} :
    Serves rule Good (failKind name wanted value) :=
  .getHeap fun _ _ => .fail

theorem number_serves : Serves rule (fun _ => True) (number name value) := by
  cases value with
  | number => exact .pure trivial
  | _ => exact failKind_serves

theorem text_serves : Serves rule (fun _ => True) (text name value) := by
  cases value with
  | text => exact .pure trivial
  | _ => exact failKind_serves

theorem array_serves : Serves rule (fun _ => True) (array name value) := by
  cases value with
  | array => exact .pure trivial
  | _ => exact failKind_serves

theorem count_serves : Serves rule (fun _ => True) (count name value) := by
  refine number_serves.bind fun n _ => ?_
  split
  · exact .pure trivial
  · exact .fail

theorem nullary_serves {body : HostAction Value} (serves : Serves rule rule.Val body) :
    HostBody.Serves rule (nullary name body) := by
  intro args known
  cases args with
  | nil => exact serves
  | cons a rest => exact .fail

theorem unary_serves {body : Value → HostAction Value}
    (serves : ∀ a, rule.Val a → Serves rule rule.Val (body a)) :
    HostBody.Serves rule (unary name body) := by
  intro args known
  match args with
  | [a] => exact serves a (known a List.mem_cons_self)
  | [] | a :: b :: rest => exact .fail

theorem unaryOrBinary_serves {body : Value → Option Value → HostAction Value}
    (serves : ∀ a b, Serves rule rule.Val (body a b)) :
    HostBody.Serves rule (unaryOrBinary name body) := by
  intro args known
  match args with
  | [a] => exact serves a none
  | [a, b] => exact serves a (some b)
  | [] | a :: b :: c :: rest => exact .fail

theorem binary_serves {body : Value → Value → HostAction Value}
    (serves : ∀ a b, Serves rule rule.Val (body a b)) :
    HostBody.Serves rule (binary name body) := by
  intro args known
  match args with
  | [a, b] => exact serves a b
  | [] | [a] | a :: b :: c :: rest => exact .fail

theorem binaryOrTernary_serves {body : Value → Value → Option Value → HostAction Value}
    (serves : ∀ a b c, Serves rule rule.Val (body a b c)) :
    HostBody.Serves rule (binaryOrTernary name body) := by
  intro args known
  match args with
  | [a, b] => exact serves a b none
  | [a, b, c] => exact serves a b (some c)
  | [] | [a] | a :: b :: c :: d :: rest => exact .fail

theorem ternary_serves {body : Value → Value → Value → HostAction Value}
    (serves : ∀ a b c, Serves rule rule.Val (body a b c)) :
    HostBody.Serves rule (ternary name body) := by
  intro args known
  match args with
  | [a, b, c] => exact serves a b c
  | [] | [a] | [a, b] | a :: b :: c :: d :: rest => exact .fail

theorem numeric_serves {f : Float → Float} : HostBody.Serves rule (numeric name f) :=
  unary_serves fun _ _ => number_serves.bind fun _ _ => .pure rule.number

theorem sqrt_serves : HostBody.Serves rule sqrt := by
  refine unary_serves fun _ _ => number_serves.bind fun n _ => ?_
  split
  · exact .fail
  · exact .pure rule.number

theorem round_serves : HostBody.Serves rule round := by
  refine unaryOrBinary_serves fun _ places => number_serves.bind fun n _ => ?_
  cases places with
  | some places => exact number_serves.map.bind fun _ _ => .pure rule.number
  | none => exact .pure rule.number

theorem pow_serves : HostBody.Serves rule pow :=
  binary_serves fun _ _ => number_serves.bind fun _ _ => number_serves.bind fun _ _ =>
    .pure rule.number

theorem numbers_serves {values : List Value} :
    Serves rule (fun _ => True) (values.mapM (number name)) := by
  induction values with
  | nil => exact .pure trivial
  | cons value rest ih =>
    rw [List.mapM_cons]
    exact number_serves.bind fun _ _ => ih.bind fun _ _ => .pure trivial

theorem operands_serves {values : List Value} :
    Serves rule (fun _ => True) (operands name values) := by
  unfold operands
  split
  · exact .getHeap fun _ _ => numbers_serves
  · exact numbers_serves

theorem combined_serves {pick : Float → Float → Float} :
    HostBody.Serves rule (combined name pick) := by
  intro args known
  cases args with
  | nil => exact .fail
  | cons first rest =>
    refine operands_serves.bind fun values _ => ?_
    cases values with
    | nil => exact .fail
    | cons => exact .pure rule.number

theorem random_serves : HostBody.Serves rule random := by
  intro args known
  by_cases few : args.length ≤ 1
  · have drawn : random args = fun state =>
        .ok (.number state.world.random.1) { state with world := state.world.random.2 } :=
          if_pos few
    rw [drawn]
    exact fun _ inv => ⟨rule.number, inv.1, rule.random inv.2⟩
  · have refused : random args = Library.fail (.argumentCount "RND" (.between 0 1) args.length) :=
      if_neg few
    rw [refused]
    exact .fail

theorem val_serves : HostBody.Serves rule val :=
  unary_serves fun _ _ => text_serves.bind fun _ _ => .pure rule.number

theorem str_serves : HostBody.Serves rule str :=
  unary_serves fun _ _ => number_serves.bind fun _ _ => .pure rule.text

theorem length_serves : HostBody.Serves rule length := by
  refine unary_serves fun a _ => ?_
  cases a with
  | text => exact .pure rule.number
  | array ref => exact .getHeap fun _ _ => .pure rule.number
  | _ => exact failKind_serves

theorem upper_serves : HostBody.Serves rule upper :=
  unary_serves fun _ _ => text_serves.bind fun _ _ => .pure rule.text

theorem lower_serves : HostBody.Serves rule lower :=
  unary_serves fun _ _ => text_serves.bind fun _ _ => .pure rule.text

theorem trim_serves : HostBody.Serves rule trim :=
  unary_serves fun _ _ => text_serves.bind fun _ _ => .pure rule.text

theorem left_serves : HostBody.Serves rule left :=
  binary_serves fun _ _ => text_serves.bind fun _ _ => count_serves.bind fun _ _ => .pure rule.text

theorem right_serves : HostBody.Serves rule right :=
  binary_serves fun _ _ => text_serves.bind fun _ _ => count_serves.bind fun _ _ => .pure rule.text

theorem mid_serves : HostBody.Serves rule mid := by
  refine binaryOrTernary_serves fun _ _ c => text_serves.bind fun _ _ =>
    count_serves.bind fun start _ => ?_
  split
  · exact .fail
  · cases c with
    | some c => exact count_serves.bind fun _ _ => .pure rule.text
    | none => exact .pure rule.text

theorem chr_serves : HostBody.Serves rule chr := by
  refine unary_serves fun _ _ => count_serves.bind fun _ _ => ?_
  split
  · exact .pure rule.text
  · exact .fail

theorem asc_serves : HostBody.Serves rule asc := by
  refine unary_serves fun _ _ => text_serves.bind fun _ _ => ?_
  split
  · exact .pure rule.number
  · exact .fail

theorem contains_serves : HostBody.Serves rule contains := by
  refine binary_serves fun _ _ => text_serves.bind fun s _ => text_serves.bind fun pattern _ => ?_
  cases Text.contains s pattern <;> exact .pure rule.number

theorem split_serves : HostBody.Serves rule split := by
  refine unaryOrBinary_serves fun _ b => text_serves.bind fun s _ => ?_
  have pieces (separator : String) :
      Serves rule rule.Val (newArray ((Text.split separator s).map .text).toArray) := by
    refine .newArray fun value among => ?_
    obtain ⟨piece, _, rfl⟩ := List.mem_map.mp (List.mem_toArray.mp among)
    exact rule.text
  cases b with
  | some b => exact text_serves.bind fun separator _ => pieces separator
  | none => exact pieces " "

theorem repeated_serves : HostBody.Serves rule repeated := by
  refine binary_serves fun _ _ => text_serves.bind fun _ _ => count_serves.bind fun _ _ => ?_
  split
  · exact .pure rule.text
  · exact .fail

theorem replace_serves : HostBody.Serves rule replace :=
  ternary_serves fun _ _ _ => text_serves.bind fun _ _ => text_serves.bind fun _ _ =>
      text_serves.bind fun _ _ =>
    .pure rule.text

theorem push_serves : HostBody.Serves rule push := by
  intro args known
  match args with
  | [] | [_] => exact .fail
  | first :: second :: rest =>
    refine array_serves.bind fun ref _ => .getHeap fun heap inv => ?_
    refine (Serves.modifyHeap fun _ others => rule.setItems others fun value among => ?_).bind
      fun _ _ => .pure rule.number
    rw [Array.mem_def, Array.toList_appendList, List.mem_append] at among
    rcases among with among | among
    · exact rule.items inv (Array.mem_def.mpr among)
    · exact known value (List.mem_cons_of_mem _ among)

theorem pop_serves : HostBody.Serves rule pop := by
  refine unary_serves fun _ _ => array_serves.bind fun ref _ => .getHeap fun heap inv => ?_
  dsimp only
  cases found : (heap.items ref).back? with
  | none => exact .fail
  | some last =>
    refine (Serves.modifyHeap fun _ others => rule.setItems others fun value among => ?_).bind
      fun _ _ => .pure (rule.items inv (Array.mem_of_back? found))
    rw [Array.mem_def, Array.toList_pop] at among
    exact rule.items inv (Array.mem_def.mpr (List.dropLast_subset _ among))

theorem join_serves : HostBody.Serves rule join := by
  refine unaryOrBinary_serves fun _ b => ?_
  cases b with
  | some b =>
    exact text_serves.bind fun _ _ => array_serves.bind fun _ _ => .getHeap fun _ _ =>
      .pure rule.text
  | none => exact array_serves.bind fun _ _ => .getHeap fun _ _ => .pure rule.text

theorem reverse_serves : HostBody.Serves rule reverse := by
  refine unary_serves fun a _ => ?_
  cases a with
  | array ref =>
    exact .getHeap fun heap inv => .newArray fun value among =>
      rule.items inv (Array.mem_reverse.mp among)
  | text => exact .pure rule.text
  | _ => exact failKind_serves

theorem readClock_serves : Serves rule (fun _ => True) readClock := by
  intro state inv
  have told := rule.clock inv.2
  revert told
  simp only [readClock]
  rcases state.world.readClock with ⟨_ | _, _⟩
  · exact id
  · exact fun told => ⟨trivial, inv.1, told⟩

theorem now_serves : HostBody.Serves rule now :=
  nullary_serves (readClock_serves.bind fun _ _ => .pure rule.text)

theorem millis_serves : HostBody.Serves rule millis :=
  nullary_serves (readClock_serves.bind fun _ _ => .pure rule.number)

theorem functions_serve : ∀ entry ∈ functions, HostBody.Serves rule entry.2 := by
  simp only [functions, List.forall_mem_cons]
  exact ⟨length_serves, numeric_serves, numeric_serves, sqrt_serves, str_serves, val_serves,
    upper_serves, lower_serves, left_serves, right_serves, mid_serves, chr_serves, asc_serves,
    random_serves, nofun⟩

theorem groups_serve : ∀ group ∈ groups, ∀ entry ∈ group.2, HostBody.Serves rule entry.2 := by
  simp only [groups, List.forall_mem_cons]
  exact ⟨⟨sqrt_serves, numeric_serves, numeric_serves, numeric_serves, round_serves,
      combined_serves, combined_serves, pow_serves, numeric_serves, numeric_serves, nofun⟩,
    ⟨upper_serves, lower_serves, trim_serves, length_serves, contains_serves, split_serves,
      repeated_serves, replace_serves, nofun⟩,
    ⟨length_serves, push_serves, pop_serves, join_serves, reverse_serves, nofun⟩,
    ⟨now_serves, millis_serves, nofun⟩, nofun⟩

end Library

namespace Host

variable {host : Host} {Holds : HostBody → Prop}

/-- What is true of every function of a host is true of what is called: calling one that it does not
have fails. -/
theorem invoke_holds (missing : Holds fun _ => Library.fail (.custom "no such function"))
    (holds : ∀ body ∈ host.functions, Holds body) (ref : HostRef) : Holds (host.invoke ref) := by
  unfold invoke
  rw [Array.getD_eq_getD_getElem?]
  cases found : host.functions[ref.id]? with
  | none => exact missing
  | some body => exact holds body (Array.mem_of_getElem? found)

theorem addMembers_functions {group : String} {table : Table String HostEntry}
    {members : List (String × HostBody)} :
    (host.addMembers group table
      (members.map fun entry => (entry.1, .function entry.2))).2.functions =
      host.functions ++ (members.map Prod.snd).toArray := by
  induction members generalizing host table with
  | nil => simp [addMembers]
  | cons first rest ih =>
    simp only [List.map_cons, addMembers, addMember]
    rw [ih]
    simp [addFunction]

theorem registerFunction_holds {body : HostBody} {name : String}
    (holds : ∀ body ∈ host.functions, Holds body) (added : Holds body) :
    ∀ other ∈ (host.registerFunction name body).functions, Holds other := by
  intro other among
  rcases Array.mem_push.mp among with known | rfl
  · exact holds other known
  · exact added

theorem registerGroup_holds {name : String} (holds : ∀ body ∈ host.functions, Holds body)
    {members : List (String × HostBody)} (added : ∀ entry ∈ members, Holds entry.2) :
    ∀ body ∈ (host.registerGroup name
      (members.map fun entry => (entry.1, .function entry.2))).functions, Holds body := by
  have functions : (host.registerGroup name
      (members.map fun entry => (entry.1, .function entry.2))).functions =
      host.functions ++ (members.map Prod.snd).toArray := addMembers_functions
  intro other among
  rw [functions, Array.mem_append] at among
  rcases among with known | among
  · exact holds other known
  · rw [List.mem_toArray, List.mem_map] at among
    obtain ⟨entry, member, rfl⟩ := among
    exact added entry member

theorem standard_holds (missing : Holds fun _ => Library.fail (.custom "no such function"))
    (functions : ∀ entry ∈ Library.functions, Holds entry.2)
    (groups : ∀ group ∈ Library.groups, ∀ entry ∈ group.2, Holds entry.2) (ref : HostRef) :
    Holds (standard.invoke ref) := by
  refine invoke_holds missing ?_ ref
  apply List.foldlRecOn (motive := fun host : Host => ∀ body ∈ host.functions, Holds body)
  · apply List.foldlRecOn (motive := fun host : Host => ∀ body ∈ host.functions, Holds body)
    · exact nofun
    · exact fun host holds entry among => registerFunction_holds holds (functions entry among)
  · exact fun host holds group among => registerGroup_holds holds (groups group among)

theorem standard_serves (rule : HeapRule) (ref : HostRef) :
    HostBody.Serves rule (standard.invoke ref) :=
  standard_holds (fun _ _ => .fail) Library.functions_serve Library.groups_serve ref

end Host

end MicroBasic
