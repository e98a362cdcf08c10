import MicroBasic.Proofs.Concord.Basic
import MicroBasic.Proofs.Methods
import MicroBasic.Proofs.Parsing.Sources
import MicroBasic.Proofs.Splitting

/-!
# Overloads with one name

Overloads with one name are told apart by a text that their parameters are put together in. The
types in a parsed declaration are words, in which no comma and no point occurs, so that text gives
the parameter list back. Hence the overloads with one name always have different lists, whichever
declarations were made before.
-/

namespace MicroBasic

/-- A type with its name in upper case, if it has one of its own. -/
def TypeSpec.folded : TypeSpec → TypeSpec
  | named name => named (Text.foldName name)
  | type => type

namespace Overload

/-- The parameter list up to the case of type names: whether each parameter collects arguments, and
their type. -/
def shape (overload : Overload) : List (Bool × TypeSpec) :=
  overload.params.map fun param =>
    (param.variadic, (if param.variadic then overload.elementType else param.effectiveType).folded)

/-- An overload has the declaration of a function in a program that was parsed. -/
def IsDeclared (overload : Overload) : Prop :=
  ∃ options source program block stmt, Program.parseWith options source = .ok program ∧
    Block.Within block program.statements ∧ stmt ∈ block ∧ stmt.kind = .function overload.decl

end Overload

namespace FunctionTable

/-- A set is stored under the upper-cased name of its overloads. There are some, with different
parameter lists. -/
structure Apart (key : String) (set : OverloadSet) : Prop where
  nonempty : set.overloads ≠ []
  name_eq : ∀ overload ∈ set.overloads, Text.foldName overload.name = key
  different : (set.overloads.map Overload.shape).Nodup

/-- What a declaration does to a table, by the overloads with its name that are there. -/
structure Declares (functions : FunctionTable) (overload : Overload) : Prop where
  /-- It is refused exactly if another declaration has its parameter list, and then nothing changes.
  -/
  refused : (∃ fault, functions.define overload = .error fault) ↔
    ∃ other ∈ functions.named overload.name, other.shape = overload.shape ∧
      other.sameOrigin overload = false
  duplicate :
    ∀ fault, functions.define overload = .error fault → fault.code = "DUPLICATE_DEFINITION"
  unchanged : ∀ m escape final, Evaluator.defineFunction overload.decl overload.origin m =
    .error escape final → final = m
  /-- The same declaration again changes nothing. -/
  repeated : (∃ other ∈ functions.named overload.name, other.shape = overload.shape ∧
    other.sameOrigin overload = true) → functions.define overload = .ok functions
  /-- A new parameter list is added behind the others, and no other name is touched. -/
  added : (∀ other ∈ functions.named overload.name, other.shape ≠ overload.shape) →
    ∃ next, functions.define overload = .ok next ∧
      next.named overload.name = functions.named overload.name ++ [overload] ∧
      ∀ name, Text.foldName name ≠ Text.foldName overload.name →
        next.get? name = functions.get? name

end FunctionTable

/-! ### Words -/

namespace Text

theorem toNat_toUpper {c : Char} (lower : 'a'.val ≤ c.val ∧ c.val ≤ 'z'.val) :
    c.toUpper.val.toNat + 32 = c.val.toNat ∧ 97 ≤ c.val.toNat ∧ c.val.toNat ≤ 122 := by
  have letter : 97 ≤ c.val.toNat ∧ c.val.toNat ≤ 122 := lower
  have shift : ('A'.val - 'a'.val).toNat = 4294967264 := by decide
  have value : c.toUpper.val = c.val + ('A'.val - 'a'.val) := by
    unfold Char.toUpper
    rw [dif_pos lower]
  rw [value, UInt32.toNat_add, shift]
  omega

theorem foldName_foldName (name : String) : foldName (foldName name) = foldName name := by
  have fixed (c : Char) : c.toUpper.toUpper = c.toUpper := by
    by_cases lower : 'a'.val ≤ c.val ∧ c.val ≤ 'z'.val
    · have value := toNat_toUpper lower
      refine dif_neg fun again => ?_
      have letter : 97 ≤ c.toUpper.val.toNat := again.1
      omega
    · rw [show c.toUpper = c from dif_neg lower]
      exact dif_neg lower
  rw [foldName, foldName, String.toList_ofList, List.map_map]
  exact congrArg _ (List.map_congr_left fun c _ => fixed c)

/-- A word: it is not empty, and no comma or point is in it. -/
def IsWord (cs : List Char) : Prop :=
  cs ≠ [] ∧ ∀ c ∈ cs, c ≠ ',' ∧ c ≠ '.'

/-- The parts that commas and blanks were put between can be told from the whole. -/
theorem intercalate_injective {as bs : List (List Char)} (first : ∀ a ∈ as, a ≠ [] ∧ ',' ∉ a)
    (second : ∀ b ∈ bs, b ≠ [] ∧ ',' ∉ b)
    (same : [',', ' '].intercalate as = [',', ' '].intercalate bs) : as = bs := by
  -- With a blank before every part, the comma alone is the separator.
  have blanks (a : List Char) (as : List (List Char)) :
      [','].intercalate ((a :: as).map (' ' :: ·)) = ' ' :: [',', ' '].intercalate (a :: as) := by
    induction as generalizing a with
    | nil => simp
    | cons b as ih => simpa using ih b
  have told {as : List (List Char)} (parts : ∀ a ∈ as, a ≠ [] ∧ ',' ∉ a) : as =
      if [',', ' '].intercalate as = [] then []
      else ((' ' :: [',', ' '].intercalate as).splitOn ',').map List.tail := by
    cases as with
    | nil => rfl
    | cons a as =>
      have nonempty : [',', ' '].intercalate (a :: as) ≠ [] := by
        cases as <;> simp [(parts a List.mem_cons_self).1]
      have free : ∀ part ∈ (a :: as).map (' ' :: ·), ',' ∉ part := by
        refine List.forall_mem_map.mpr fun part among => ?_
        simpa using (parts part among).2
      rw [if_neg nonempty, ← blanks, List.splitOn_intercalate ',' free (by simp), List.map_map]
      exact (List.map_id _).symm
  rw [told first, same, ← told second]

end Text

namespace Scan

theorem toUpper_of_name {c : Char} (inName : continuesName c = true ∨ Text.isTypeSuffix c = true) :
    c.toUpper ≠ ',' ∧ c.toUpper ≠ '.' := by
  by_cases lower : 'a'.val ≤ c.val ∧ c.val ≤ 'z'.val
  · have value := Text.toNat_toUpper lower
    constructor <;> intro same <;> rw [same] at value
    · have comma : ','.val.toNat = 44 := rfl
      omega
    · have point : '.'.val.toNat = 46 := rfl
      omega
  · rw [show c.toUpper = c from dif_neg lower]
    constructor <;> rintro rfl <;> revert inName <;> decide

theorem mem_take_nameLength {c : Char} {cs : List Char} (among : c ∈ cs.take (nameLength cs)) :
    continuesName c = true ∨ Text.isTypeSuffix c = true := by
  induction cs with
  | nil => cases among
  | cons first rest ih =>
    rw [nameLength_cons] at among
    split at among
    next continues =>
      rcases List.mem_cons.mp among with rfl | among
      · exact .inl continues
      · exact ih among
    next =>
      split at among
      next suffix =>
        rw [List.take_succ_cons, List.take_zero, List.mem_singleton] at among
        exact .inr (among ▸ suffix)
      next => cases among

theorem BeginsWord.isWord {c : Char} {rest : List Char} {word : String} {length : Nat}
    (begins : BeginsWord c rest word length) : Text.IsWord (Text.foldName word).toList := by
  obtain ⟨starts, _, rfl, rfl, _⟩ := begins
  rw [Text.foldName, String.toList_ofList, String.toList_ofList]
  refine ⟨fun blank => ?_,
    List.forall_mem_map.mpr fun c among => toUpper_of_name (mem_take_nameLength among)⟩
  obtain ⟨count, same⟩ := Nat.exists_eq_add_one.mpr (@nameLength_pos c rest starts)
  rw [same] at blank
  cases blank

theorem Cuts.isWord {cs : List Char} {tokens : List Token} (cuts : Cuts cs tokens) :
    ∀ token ∈ tokens, ∀ word, token.name? = some word →
      Text.IsWord (Text.foldName word).toList := by
  induction cuts with
  | done => exact nofun
  | space _ _ ih => exact ih
  | token _ found _ ih =>
    refine List.forall_mem_cons.mpr ⟨fun word named => ?_, ih⟩
    cases takes_of_lexeme found with
    | name begins _ =>
      cases named
      exact begins.isWord
    | keyword begins _ =>
      cases named
      have isWord := begins.isWord
      rwa [begins.word_eq] at isWord
    | _ => cases named

end Scan

/-! ### Signatures -/

/-- A type in upper case whose title is a word and tells it. -/
structure TypeSpec.Titled (type : TypeSpec) : Prop where
  isWord : Text.IsWord type.title.toList
  eq_ofName : type = ofName type.title

namespace TypeSpec

theorem title_folded (type : TypeSpec) : type.folded.title = Text.foldName type.title := by
  cases type with
  | named name => rfl
  | _ => decide

theorem titled_builtin {type : TypeSpec} (builtin : ∀ name, type ≠ named name) :
    type.folded.Titled := by
  cases type with
  | named name => exact absurd rfl (builtin name)
  | _ => exact ⟨by simp [Text.IsWord, folded, title], by decide⟩

theorem titled_ofName {word : String} (isWord : Text.IsWord (Text.foldName word).toList) :
    (ofName word).folded.Titled := by
  have same := Text.foldName_foldName word
  unfold ofName
  dsimp only
  iterate 6 (split; · exact titled_builtin nofun)
  refine ⟨isWord, ?_⟩
  unfold ofName
  simp only [folded, title, *, if_false]

theorem titled_ofSuffix (name : String) : (ofSuffix name).folded.Titled := by
  unfold ofSuffix
  split <;> exact titled_builtin nofun

end TypeSpec

namespace Overload

variable {overload other : Overload}

/-- What a parameter contributes to a signature. -/
def part (entry : Bool × TypeSpec) : List Char :=
  entry.2.title.toList ++ if entry.1 then ['.', '.', '.'] else []

theorem part_injective {entry next : Bool × TypeSpec} (first : entry.2.Titled)
    (second : next.2.Titled) (same : part entry = part next) : entry = next := by
  have word {entry : Bool × TypeSpec} (titled : entry.2.Titled) :
      (part entry).takeWhile (· ≠ '.') = entry.2.title.toList := by
    have inner : ∀ c ∈ entry.2.title.toList, decide (c ≠ '.') = true := fun c among =>
      decide_eq_true (titled.isWord.2 c among).2
    rw [part, List.takeWhile_append_of_pos inner]
    cases entry.1 <;> exact List.append_nil _
  have titles : entry.2.title.toList = next.2.title.toList := by
    rw [← word first, same, word second]
  have types : entry.2 = next.2 := by
    rw [first.eq_ofName, second.eq_ofName, String.toList_injective titles]
  have marks : entry.1 = next.1 := by
    rw [part, part, titles] at same
    have dots := List.append_cancel_left same
    revert dots
    cases entry.1 <;> cases next.1 <;> decide
  exact Prod.ext marks types

theorem map_part_injective {entries others : List (Bool × TypeSpec)}
    (first : ∀ entry ∈ entries, entry.2.Titled) (second : ∀ entry ∈ others, entry.2.Titled)
    (same : entries.map part = others.map part) : entries = others := by
  induction entries generalizing others with
  | nil => exact (List.map_eq_nil_iff.mp same.symm).symm
  | cons entry rest ih =>
    obtain ⟨next, later, rfl, heads, tails⟩ := List.map_eq_cons_iff.mp same.symm
    obtain ⟨titled, first⟩ := List.forall_mem_cons.mp first
    obtain ⟨titled', second⟩ := List.forall_mem_cons.mp second
    rw [part_injective titled titled' heads.symm, ih first second tails.symm]

theorem IsDeclared.titled (declared : overload.IsDeclared) :
    ∀ entry ∈ overload.shape, entry.2.Titled := by
  obtain ⟨options, source, program, block, stmt, parsed, within, own, function⟩ := declared
  obtain ⟨bare, cuts⟩ := Program.cuts_of_parseWith parsed
  obtain ⟨tokens, finish, places, parses⟩ := Program.parseWith_of_cuts cuts options
  have words :
    ∀ token ∈ (Cursor.before (tokens ++ [finish])).last :: (Cursor.before (tokens ++ [finish])).ahead,
      ∀ word, token.name? = some word → Text.IsWord (Text.foldName word).toList := by
    rw [Cursor.before_append tokens places.finish_kind]
    refine List.forall_mem_cons.mpr ⟨fun word named => ?_, fun token among => ?_⟩
    · rw [Token.name?, places.finish_kind] at named
      cases named
    · exact cuts.isWord token.bare
        (places.bare_eq ▸ List.mem_map_of_mem (Token.mem_of_visible among))
  obtain ⟨⟨_, numbered⟩, _⟩ :=
    Program.numbered_of_known (Results.of_mapError (parses.symm.trans parsed)) words
  have orderly := (numbered.sound List.mem_cons_self within own).2
  rw [function] at orderly
  have titled : ∀ param ∈ overload.params, ∀ type ∈ param.type, type.folded.Titled := by
    intro param among type typed
    obtain ⟨token, word, known, named, rfl⟩ := orderly.2 param among type typed
    exact TypeSpec.titled_ofName (known word named)
  refine List.forall_mem_map.mpr fun param among => ?_
  dsimp only
  split
  · unfold elementType
    split
    next => exact TypeSpec.titled_builtin (by simp)
    next => exact TypeSpec.titled_builtin (by simp)
    next type _ found =>
      obtain ⟨last, isLast, typed⟩ := Option.bind_eq_some_iff.mp found
      exact titled last (List.mem_of_getLast? isLast) type typed
  · unfold Param.effectiveType
    cases typed : param.type with
    | some type => exact titled param among type typed
    | none =>
      cases param.variadic with
      | true => exact TypeSpec.titled_builtin (by simp)
      | false => exact TypeSpec.titled_ofSuffix _

theorem toList_describeParam (overload : Overload) (param : Param) :
    (overload.describeParam param).toList.map Char.toUpper = part (param.variadic,
      (if param.variadic then overload.elementType else param.effectiveType).folded) := by
  have upper (type : TypeSpec) : type.folded.title.toList = type.title.toList.map Char.toUpper := by
    rw [TypeSpec.title_folded, Text.foldName, String.toList_ofList]
  unfold describeParam part
  cases param.variadic with
  | true => simp only [if_true, upper, String.toList_append, List.map_append]; rfl
  | false => simp only [Bool.false_eq_true, if_false, upper, List.append_nil]

theorem toList_signature (overload : Overload) : overload.signature.toList =
    (Text.foldName overload.name).toList ++
      '(' :: ([',', ' '].intercalate (overload.shape.map part) ++ [')']) := by
  have joined (pieces : List (List Char)) : ([',', ' '].intercalate pieces).map Char.toUpper =
      [',', ' '].intercalate (pieces.map (List.map Char.toUpper)) := by
    induction pieces with
    | nil => rfl
    | cons piece rest ih =>
      cases rest with
      | nil => simp
      | cons next rest =>
        rw [List.map_cons, List.map_cons, List.intercalate_cons_cons, List.intercalate_cons_cons,
          List.map_append, List.map_append, ih]
        rfl
  have parts :
    (overload.params.map overload.describeParam).map (List.map Char.toUpper ∘ String.toList) =
      overload.shape.map part := by
    rw [shape, List.map_map, List.map_map]
    exact List.map_congr_left fun param _ => toList_describeParam overload param
  have upper (text : String) : (Text.foldName text).toList = text.toList.map Char.toUpper :=
    String.toList_ofList
  rw [signature, upper, upper, description, String.toList_append, String.toList_append,
    String.toList_append, Text.toList_join, List.map_append, List.map_append, List.map_append,
      show ", ".toList = [',', ' '] from rfl,
    joined, List.map_map, parts, List.append_assoc, List.append_assoc]
  rfl

/-- Two parsed declarations with one name have the same signature exactly if they have the same
parameter list. -/
theorem signature_eq_iff (declared : overload.IsDeclared) (declared' : other.IsDeclared)
    (names : Text.foldName other.name = Text.foldName overload.name) :
    other.signature = overload.signature ↔ other.shape = overload.shape := by
  have parts {overload : Overload} (declared : overload.IsDeclared) :
      ∀ part' ∈ overload.shape.map part, part' ≠ [] ∧ ',' ∉ part' := by
    refine List.forall_mem_map.mpr fun entry among => ?_
    obtain ⟨nonempty, free⟩ := (declared.titled entry among).isWord
    refine ⟨fun blank => nonempty (List.append_eq_nil_iff.mp blank).1, fun comma => ?_⟩
    rcases List.mem_append.mp comma with comma | comma
    · exact (free ',' comma).1 rfl
    · revert comma
      cases entry.1 <;> decide
  constructor
  · intro same
    have whole := congrArg String.toList same
    rw [toList_signature, toList_signature, names] at whole
    have inner := List.append_cancel_right (List.cons.inj (List.append_cancel_left whole)).2
    have joined := Text.intercalate_injective (parts declared') (parts declared) inner
    exact map_part_injective declared'.titled declared.titled joined
  · intro same
    refine String.toList_injective ?_
    rw [toList_signature, toList_signature, names, same]

end Overload

/-! ### Tables -/

namespace FunctionTable

variable {functions : FunctionTable} {overload : Overload}

theorem define_eq (functions : FunctionTable) (overload : Overload) : functions.define overload =
    (((functions.get? overload.name).getD { name := overload.name, overloads := [] }).define
      overload).map fun set =>
      ⟨functions.byName.insert (Text.foldName overload.name) set⟩ := by
  unfold define get?
  dsimp only
  cases OverloadSet.define _ overload <;> rfl

/-- The table is in order, and every overload in it was declared. -/
structure InOrder (functions : FunctionTable) : Prop where
  holds : ∀ entry ∈ functions.byName.entries, Apart entry.1 entry.2 ∧
    ∀ overload ∈ entry.2.overloads, overload.IsDeclared
  keys : functions.byName.keys.Nodup

namespace InOrder

variable (inOrder : functions.InOrder)

include inOrder

theorem nodup (name : String) :
    ((functions.named name).map Overload.shape).Nodup := by
  unfold named
  cases found : functions.get? name with
  | none => exact .nil
  | some set => exact (inOrder.holds _ (Table.mem_of_get? found)).1.different

theorem member {name : String} {other : Overload} (among : other ∈ functions.named name) :
    other.IsDeclared ∧ Text.foldName other.name = Text.foldName name := by
  unfold named get? at among
  cases found : functions.byName.get? (Text.foldName name) with
  | none =>
    rw [found] at among
    cases among
  | some set =>
    rw [found] at among
    obtain ⟨apart, declared⟩ := inOrder.holds _ (Table.mem_of_get? found)
    exact ⟨declared other among, apart.name_eq other among⟩

variable (declared : overload.IsDeclared)

include declared

/-- A declaration meets the one overload with its parameter list, or there is none and it is added.
-/
theorem define_cases :
    (∃ other ∈ functions.named overload.name, other.shape = overload.shape ∧
      (∀ another ∈ functions.named overload.name, another.shape = overload.shape →
        another = other) ∧
      functions.define overload = if other.sameOrigin overload then .ok functions
        else .error (.overloadDefinedTwice overload.description)) ∨
    ((∀ other ∈ functions.named overload.name, other.shape ≠ overload.shape) ∧
      ∃ set, set.overloads = functions.named overload.name ++ [overload] ∧
        functions.define overload =
          .ok ⟨functions.byName.insert (Text.foldName overload.name) set⟩) := by
  have signatures (other : Overload) (among : other ∈ functions.named overload.name) :
      (other.signature == overload.signature) = true ↔ other.shape = overload.shape := by
    obtain ⟨known, names⟩ := inOrder.member among
    rw [beq_iff_eq, Overload.signature_eq_iff declared known names]
  rw [define_eq]
  cases found :
      (functions.named overload.name).find? fun other => other.signature == overload.signature with
  | none =>
    have absent := List.find?_eq_none.mp found
    refine .inr ⟨fun other among same => absent other among ((signatures other among).mpr same), ?_⟩
    unfold named at found ⊢
    cases there : functions.get? overload.name with
    | none => exact ⟨⟨overload.name, [overload]⟩, rfl, rfl⟩
    | some set =>
      rw [there] at found
      refine ⟨{ set with overloads := set.overloads ++ [overload] }, rfl, ?_⟩
      rw [Option.getD_some, OverloadSet.define, show set.overloads.find? _ = none from found]
      rfl
  | some other =>
    have among := List.mem_of_find?_eq_some found
    have met := List.find?_some found
    have same := (signatures other among).mp met
    refine .inl ⟨other, among, same, fun another listed alike =>
      List.inj_on_of_nodup_map (inOrder.nodup _) listed among (alike.trans same.symm), ?_⟩
    unfold named at found
    cases there : functions.get? overload.name with
    | none =>
      rw [there] at found
      cases found
    | some set =>
      rw [there] at found
      rw [Option.getD_some, OverloadSet.define, show set.overloads.find? _ = some other from found]
      dsimp only
      split
      · exact congrArg (fun table => Except.ok (FunctionTable.mk table))
          (Table.insert_of_get? there)
      · rfl

theorem declares : functions.Declares overload := by
  have unchanged (m : Machine) (escape : Escape) (final : Machine)
      (failed : Evaluator.defineFunction overload.decl overload.origin m = .error escape final) :
      final = m := by
    rw [Evaluator.defineFunction, Exec.change_eq] at failed
    split at failed
    · cases failed
    · cases failed
      rfl
  rcases inOrder.define_cases
    declared with ⟨other, among, same, only, defined⟩ | ⟨absent, set, overloads, defined⟩
  · refine ⟨?_, ?_, unchanged, ?_, fun absent => absurd same (absent other among)⟩
    · rw [defined]
      constructor
      · rintro ⟨fault, refused⟩
        refine ⟨other, among, same, Bool.eq_false_iff.mpr fun origin => ?_⟩
        rw [if_pos origin] at refused
        cases refused
      · rintro ⟨another, listed, alike, origin⟩
        rw [← only another listed alike, origin]
        exact ⟨_, rfl⟩
    · rw [defined]
      cases other.sameOrigin overload <;> rintro fault ⟨⟩
      rfl
    · rintro ⟨another, listed, alike, origin⟩
      rw [defined, ← only another listed alike, if_pos origin]
  · refine ⟨?_, ?_, unchanged, ?_, fun _ => ⟨_, defined, ?_, fun name other => ?_⟩⟩
    · rw [defined]
      exact ⟨nofun, fun ⟨other, among, same, _⟩ => absurd same (absent other among)⟩
    · rw [defined]
      exact nofun
    · exact fun ⟨other, among, same, _⟩ => absurd same (absent other among)
    · unfold named get? at overloads ⊢
      rw [Table.get?_insert, if_pos rfl]
      exact overloads
    · unfold get?
      rw [Table.get?_insert, if_neg other]

theorem define {next : FunctionTable} (done : functions.define overload = .ok next) :
    next.InOrder := by
  rcases inOrder.define_cases
    declared with ⟨other, _, _, _, defined⟩ | ⟨absent, set, overloads, defined⟩
  · rw [defined] at done
    split at done <;> cases done
    exact inOrder
  · rw [defined] at done
    cases done
    have members : ∀ member ∈ set.overloads, member.IsDeclared ∧
        Text.foldName member.name = Text.foldName overload.name := by
      rw [overloads]
      refine List.forall_mem_append.mpr
        ⟨fun other => inOrder.member, List.forall_mem_singleton.mpr ⟨declared, rfl⟩⟩
    have different : (set.overloads.map Overload.shape).Nodup := by
      rw [overloads, List.map_append, List.map_singleton, ← List.concat_eq_append]
      exact List.Nodup.concat (by simpa using absent) (inOrder.nodup _)
    refine ⟨fun entry held => ?_, Table.nodup_insert inOrder.keys⟩
    rcases Table.mem_insert held with rfl | held
    · exact ⟨⟨by simp [overloads], fun member among => (members member among).2, different⟩,
        fun member among => (members member among).1⟩
    · exact inOrder.holds entry held

end InOrder

/-- After any declarations that were parsed, every set of overloads stands under its name, is not
empty, and has different parameter lists up to the case of type names. One more declaration is
refused exactly if its list is there from another one, changes nothing if it is the same one again,
and is added otherwise. -/
theorem overloads_stay_different {calls : List Overload}
    (parsed : ∀ overload ∈ calls, overload.IsDeclared) :
    (∀ entry ∈ (declared calls).byName.entries, Apart entry.1 entry.2) ∧
      (declared calls).byName.keys.Nodup ∧
      ∀ overload, overload.IsDeclared → (declared calls).Declares overload := by
  have inOrder : (declared calls).InOrder :=
    declared_of_define calls ⟨nofun, .nil⟩ fun among held => held.define (parsed _ among)
  exact ⟨fun entry held => (inOrder.holds entry held).1, inOrder.keys,
    fun overload => inOrder.declares⟩

/-- Functions with one name, of which the last has the parameter list of the first. -/
def sameNamed : Except SyntaxError Program :=
  Program.parse
    ("FUNCTION F(a AS Point, b...)\nEND FUNCTION\nSUB f(a AS long, b AS NUMBER)\nEND SUB\n" ++
    "SUB F(x AS POINT, y... AS ANY)\nEND SUB")

/-- The functions that the program declares. -/
def sameNamedCalls : List Overload :=
  ((sameNamed.toOption.map Program.statements).getD []).filterMap fun stmt => match stmt.kind with
    | .function decl => some { decl, origin := stmt.id, loops := ⟨0⟩ }
    | _ => none

/-- Of three functions two are in the table, with different parameter lists. -/
theorem overloads_stay_different_after_duplicate :
    sameNamedCalls.length = 3 ∧ ((declared sameNamedCalls).named "f").length = 2 ∧
      ∀ entry ∈ (declared sameNamedCalls).byName.entries, Apart entry.1 entry.2 := by
  refine ⟨by decide +kernel, by decide +kernel,
    (overloads_stay_different fun overload among => ?_).1⟩
  obtain ⟨stmt, own, declares⟩ := List.mem_filterMap.mp among
  cases parsed : sameNamed with
  | error error =>
    rw [parsed] at own
    cases own
  | ok program =>
    rw [parsed] at own
    split at declares
    next decl function =>
      cases declares
      exact ⟨{}, _, program, program.statements, stmt, parsed, .self, own, function⟩
    next => cases declares

end FunctionTable

end MicroBasic
