import RemoteObjects.Repc.Productions

/-! What the places of the grammar accept is generated by its productions: at each place, what has been read is a product of
words of nonterminals. -/
namespace RemoteObjects.Repc.Productions
open ContextFree Transition

section Words
variable {n a b c d : NonTerminal} {t : Terminal} {X Y : Symbol Terminal NonTerminal} {K L M : Language Terminal}

abbrev phrases (n : NonTerminal) : Language Terminal := words repGrammar n

theorem produces {output : Output} (rule : output ∈ alternatives n) : outputWords phrases output ≤ phrases n :=
  words_solves repGrammar ⟨n, output⟩ ((List.mem_toFinset (α := Rule)).mpr (mem_productions.mpr rule))

theorem produces_one (rule : [X] ∈ alternatives n) : symbolWords phrases X ≤ phrases n := by
  have solved := produces rule
  rw [outputWords_singleton] at solved
  exact solved

theorem token_le (rule : [tok t] ∈ alternatives n) : {[t]} ≤ phrases n := produces_one rule

theorem single_le (rule : [ref a] ∈ alternatives n) : phrases a ≤ phrases n := produces_one rule

theorem produces_two (rule : [X, Y] ∈ alternatives n) : symbolWords phrases X * symbolWords phrases Y ≤ phrases n := by
  have solved := produces rule
  rw [outputWords_cons, outputWords_singleton] at solved
  exact solved

theorem two_le (rule : [ref a, ref b] ∈ alternatives n) : phrases a * phrases b ≤ phrases n := produces_two rule

theorem three_le (rule : [ref a, ref b, ref c] ∈ alternatives n) : phrases a * phrases b * phrases c ≤ phrases n := by
  have solved := produces rule
  rw [outputWords_cons, outputWords_cons, outputWords_singleton, ← mul_assoc] at solved
  exact solved

theorem four_le (rule : [ref a, ref b, ref c, ref d] ∈ alternatives n) : phrases a * phrases b * phrases c * phrases d ≤ phrases n := by
  have solved := produces rule
  rw [outputWords_cons, outputWords_cons, outputWords_cons, outputWords_singleton, ← mul_assoc, ← mul_assoc] at solved
  exact solved

/-- The nonterminals whose words may have newlines behind them. -/
def takesNewlines : NonTerminal → Bool
  | .newlines | .comments | .comment | .type | .types | .comma | .cls | .classTypes | .classType | .pod2 | .podTypes | .podType
  | .captureComma | .decoratedSlot | .decoratedSignal | .decoratedProp | .decoratedModel | .decoratedClass | .decoratedEnumParam
  | .decoratedClassFlag | .decoratedPODFlag | .decoratedEnum | .start | .stop | .enum | .enumParams | .classStart | .podStart => true
  | _ => false

theorem absorbs_newline (takes : takesNewlines n = true) : phrases n * {[.newline]} ≤ phrases n := by
  have closed : ∀ rule ∈ productions, takesNewlines rule.input = true →
      RuleAbsorbs productions takesNewlines .newlines .newline rule := by
    decide +kernel
  apply words_absorb (g := repGrammar) (fun rule => ((List.mem_toFinset (α := Rule)).symm)) closed _ takes
  exact token_le (n := .newlines) (by decide) rfl

/-- The words, or nothing. -/
def optional (n : NonTerminal) : Language Terminal := 1 + phrases n

theorem one_le_optional : 1 ≤ optional n := le_self_add

theorem le_optional : phrases n ≤ optional n := le_add_self

theorem le_mul_optional : L ≤ L * optional n := by
  calc L = L * 1 := (mul_one L).symm
    _ ≤ L * optional n := mul_le_mul' le_rfl one_le_optional

theorem mul_le_mul_optional : L * phrases n ≤ L * optional n := mul_le_mul' le_rfl le_optional

/-- The first of a list, or one more. -/
theorem optional_mul_le (first : L ≤ M) (more : phrases n * L ≤ M) : optional n * L ≤ M := by
  rw [optional, add_mul, one_mul]
  exact add_le first more

/-- A nonterminal with another in front of it, or alone. -/
theorem optional_le (alone : [ref b] ∈ alternatives n) (behind : [ref a, ref b] ∈ alternatives n) : optional a * phrases b ≤ phrases n :=
  optional_mul_le (single_le alone) (two_le behind)

theorem mul_optional_le (first : L ≤ M) (more : L * phrases n ≤ M) : L * optional n ≤ M := by
  rw [optional, mul_add, mul_one]
  exact add_le first more

theorem optional_absorbs (takes : takesNewlines n = true) (L : Language Terminal) (absorbs : L * {[.newline]} ≤ L) :
    L * optional n * {[.newline]} ≤ L * optional n := by
  rw [optional, mul_add, mul_one, add_mul]
  apply add_le
  · exact absorbs.trans le_self_add
  · rw [mul_assoc]
    exact (mul_le_mul' le_rfl (absorbs_newline takes)).trans le_add_self

end Words

section Model

/-- In front of a type. -/
def top : Language Terminal := optional .newlines * optional .types

def Body.starts : Body → NonTerminal
  | .cls => .classStart
  | .pod => .podStart

/-- Up to the inside of the braces. -/
def inBody (body : Body) : Language Terminal := top * phrases (Body.starts body) * phrases .start

def inClass : Language Terminal := inBody .cls * optional .classTypes

def inPod : PodPlace → Language Terminal
  | .empty => inBody .pod
  | .member => inBody .pod * phrases .podTypes
  | .comma => inBody .pod * phrases .podTypes * phrases .captureComma

def podTypeBegins : Language Terminal := inPod .empty + inPod .member + inPod .comma

/-- In front of a type of a parameter. -/
def parameterBegins : Nat → Language Terminal
  | 0 => podTypeBegins
  | templates + 1 =>
    parameterBegins templates * optional .qualified * phrases .templateTypename * phrases .tStart *
      (1 + phrases .parameterTypes * phrases .captureComma)

def templateBegins (templates : Nat) : Language Terminal :=
  parameterBegins templates * optional .qualified * phrases .templateTypename * phrases .tStart

def enumBegins : Option Body → Language Terminal
  | none => top
  | some .cls => inClass * optional .comments
  | some .pod => podTypeBegins * optional .comments

def inEnum (scope : Option Body) : Language Terminal := enumBegins scope * phrases .enumStart * phrases .start

def enumParamBegins (scope : Option Body) : Language Terminal :=
  inEnum scope * (1 + phrases .enumParams * phrases .comma) * optional .comments

/-- What has been read at a place. -/
def read : GrammarState → Language Terminal
  | .global false => optional .newlines
  | .global true => optional .newlines * phrases .types
  | .header body => top * phrases (Body.starts body)
  | .opening body => top * phrases (Body.starts body) * phrases .comments
  | .cls false => inClass
  | .cls true => inClass * phrases .comments
  | .pod place false => inPod place
  | .pod place true => inPod place * phrases .comments
  | .parameter .before templates => parameterBegins templates
  | .parameter .comma 0 => 0
  | .parameter .comma (templates + 1) => templateBegins templates * phrases .parameterTypes * phrases .captureComma
  | .parameter .qualified templates => parameterBegins templates * phrases .qualified
  | .parameter .named templates => parameterBegins templates * optional .qualified * phrases .symbol
  | .parameter .typed templates => parameterBegins templates * optional .qualified * phrases .parameterType
  | .parameter .referenced templates =>
    parameterBegins templates * optional .qualified * phrases .parameterType * phrases .passByReference
  | .enum scope (.opening false) => enumBegins scope * phrases .enumStart
  | .enum scope (.opening true) => enumBegins scope * phrases .enumStart * phrases .comments
  | .enum scope .before => enumParamBegins scope
  | .enum scope .named => enumParamBegins scope * phrases .symbol
  | .enum scope .equals => enumParamBegins scope * phrases .symbol * phrases .equals
  | .enum scope .done => inEnum scope * phrases .enumParams

end Model

section Steps
variable {n : NonTerminal} {t : Terminal} {K L M U : Language Terminal} {body : Body}

theorem at_end (K : Language Terminal) (le : L * M ≤ U) : K * L * M ≤ K * U := by
  rw [mul_assoc]
  exact mul_le_mul' le_rfl le

theorem newline_at_end (takes : takesNewlines n = true) : L * phrases n * {[.newline]} ≤ L * phrases n :=
  at_end L (absorbs_newline takes)

def Comments (t : Terminal) : Prop := t = .comment ∨ t = .mcomment

theorem comment_le (comments : Comments t) : {[t]} ≤ phrases .comment := by
  obtain rfl | rfl := comments
  · exact token_le (by decide)
  · exact token_le (by decide)

theorem first_comment (comments : Comments t) (L : Language Terminal) : L * {[t]} ≤ L * phrases .comments := by
  apply mul_le_mul' le_rfl
  exact (comment_le comments).trans (single_le (by decide))

theorem next_comment (comments : Comments t) (L : Language Terminal) : L * phrases .comments * {[t]} ≤ L * phrases .comments := by
  apply at_end
  exact (mul_le_mul' le_rfl (comment_le comments)).trans (two_le (by decide))

/-- A place with comments in front of it, or with none yet. -/
theorem commented_le (places : Bool → Language Terminal) (none : places false = L) (some : places true = L * phrases .comments)
    (commented : Bool) : places commented ≤ L * optional .comments := by
  cases commented with
  | false => exact none ▸ le_mul_optional
  | true => exact some ▸ mul_le_mul_optional

theorem comment_behind (places : Bool → Language Terminal) (none : places false = L) (some : places true = L * phrases .comments)
    (comments : Comments t) (commented : Bool) : places commented * {[t]} ≤ places true := by
  rw [some]
  cases commented with
  | false =>
    rw [none]
    exact first_comment comments L
  | true =>
    rw [some]
    exact next_comment comments L

theorem top_type : top * phrases .type ≤ read (.global true) := by
  apply at_end
  exact optional_le (by decide) (by decide)

theorem read_global_le (types : Bool) : read (.global types) ≤ top := by
  cases types with
  | false => exact le_mul_optional
  | true => exact mul_le_mul_optional

theorem global_type (types : Bool) (type : {[t]} ≤ phrases .type) : read (.global types) * {[t]} ≤ read (.global true) :=
  (mul_le_mul' (read_global_le types) type).trans top_type

theorem global_newline (types : Bool) : read (.global types) * {[.newline]} ≤ read (.global types) := by
  cases types with
  | false =>
    refine (optional_mul_le ?_ ?_).trans le_optional
    · exact token_le (by decide)
    · exact absorbs_newline rfl
  | true => exact newline_at_end rfl

theorem global_single (types : Bool) (n : NonTerminal) (token : [tok t] ∈ alternatives n)
    (rule : [ref n] ∈ alternatives .type) : read (.global types) * {[t]} ≤ read (.global true) :=
  global_type types ((token_le token).trans (single_le rule))

theorem step_global {types : Bool} {s : GrammarState} (next : nextGlobal types t = some s) :
    read (.global types) * {[t]} ≤ read s := by
  cases t <;> rw [nextGlobal] at next <;> cases next
  case newline => exact global_newline types
  case comment => exact global_type types ((comment_le (.inl rfl)).trans (single_le (by decide)))
  case mcomment => exact global_type types ((comment_le (.inr rfl)).trans (single_le (by decide)))
  case preprocessor_directive => exact global_single types .preprocessorDirective (by decide) (by decide)
  case pod => exact global_single types .pod (by decide) (by decide)
  case use_enum => exact global_single types .useEnum (by decide) (by decide)
  case flag => exact global_single types .flag (by decide) (by decide)
  case cls => exact mul_le_mul' (read_global_le types) (token_le (by decide))
  case pod2 => exact mul_le_mul' (read_global_le types) (token_le (by decide))
  case enum => exact mul_le_mul' (read_global_le types) (token_le (by decide))

theorem start_le : optional .comments * {[.start]} ≤ phrases .start :=
  optional_mul_le (token_le (by decide)) (produces_two (X := ref .comments) (Y := tok .start) (by decide))

theorem inBody_le_mode (body : Body) : inBody body ≤ read body.mode := by
  cases body with
  | cls => exact le_mul_optional
  | pod => exact le_rfl

theorem body_start (body : Body) : top * phrases (Body.starts body) * optional .comments * {[.start]} ≤ read body.mode :=
  (at_end _ start_le).trans (inBody_le_mode body)

theorem step_header {s : GrammarState} (next : nextHeader body t = some s) : read (.header body) * {[t]} ≤ read s := by
  cases t <;> rw [nextHeader] at next <;> cases next
  case newline => exact newline_at_end (by cases body <;> rfl)
  case comment => exact first_comment (.inl rfl) _
  case mcomment => exact first_comment (.inr rfl) _
  case start => exact (mul_le_mul' le_mul_optional le_rfl).trans (body_start body)

theorem step_opening {s : GrammarState} (next : nextOpening body t = some s) : read (.opening body) * {[t]} ≤ read s := by
  cases t <;> rw [nextOpening] at next <;> cases next
  case newline => exact newline_at_end rfl
  case comment => exact next_comment (.inl rfl) _
  case mcomment => exact next_comment (.inr rfl) _
  case start => exact (mul_le_mul' mul_le_mul_optional le_rfl).trans (body_start body)

end Steps

section Bodies
variable {n dn : NonTerminal} {t : Terminal} {L : Language Terminal} {s : GrammarState} {commented : Bool} {place : PodPlace}

def Body.inner : Body → NonTerminal
  | .cls => .classTypes
  | .pod => .podTypes

def Body.content : Body → NonTerminal
  | .cls => .classContent
  | .pod => .podContent

def Body.whole : Body → NonTerminal
  | .cls => .cls
  | .pod => .pod2

theorem content_le (body : Body) : optional (Body.inner body) * optional .comments ≤ optional (Body.content body) := by
  apply mul_optional_le
  · rw [optional]
    apply add_le one_le_optional
    cases body <;> exact (single_le (by decide)).trans le_optional
  · apply optional_mul_le
    · cases body <;> exact (single_le (by decide)).trans le_optional
    · cases body <;> exact (two_le (by decide)).trans le_optional

/-- A closing brace behind what may stand in a body. -/
theorem body_stop (body : Body) : inBody body * optional (Body.inner body) * optional .comments * {[.stop]} ≤ read (.global true) := by
  have stop : {[.stop]} ≤ phrases .stop := token_le (by decide)
  have whole : phrases (Body.starts body) * phrases .start * optional (Body.content body) * phrases .stop ≤ phrases (Body.whole body) := by
    rw [optional, mul_add, mul_one, add_mul]
    apply add_le
    · cases body <;> exact three_le (by decide)
    · cases body <;> exact four_le (by decide)
  have type : phrases (Body.whole body) ≤ phrases .type := by
    cases body <;> exact single_le (by decide)
  calc inBody body * optional (Body.inner body) * optional .comments * {[.stop]}
      ≤ inBody body * optional (Body.content body) * phrases .stop := mul_le_mul' (at_end _ (content_le body)) stop
    _ = top * (phrases (Body.starts body) * phrases .start * optional (Body.content body) * phrases .stop) := by
      simp only [inBody, mul_assoc]
    _ ≤ top * phrases .type := mul_le_mul' le_rfl (whole.trans type)
    _ ≤ read (.global true) := top_type

theorem read_cls_le (commented : Bool) : read (.cls commented) ≤ inClass * optional .comments :=
  commented_le (fun commented => read (.cls commented)) rfl rfl commented

theorem classType_le : optional .classTypes * phrases .classType ≤ phrases .classTypes :=
  optional_le (by decide) (by decide)

/-- A declaration in a class, with the comments in front of it. -/
theorem class_type (commented : Bool) (declaration : optional .comments * {[t]} ≤ phrases .classType) :
    read (.cls commented) * {[t]} ≤ read (.cls false) := by
  calc read (.cls commented) * {[t]} ≤ inClass * optional .comments * {[t]} := mul_le_mul' (read_cls_le commented) le_rfl
    _ ≤ inClass * phrases .classType := at_end _ declaration
    _ ≤ inBody .cls * phrases .classTypes := at_end _ classType_le
    _ ≤ read (.cls false) := mul_le_mul_optional

theorem class_declaration (commented : Bool) (n dn : NonTerminal) (token : [tok t] ∈ alternatives n)
    (alone : [ref n] ∈ alternatives dn) (behind : [ref .comments, ref n] ∈ alternatives dn)
    (classType : [ref dn] ∈ alternatives .classType) : read (.cls commented) * {[t]} ≤ read (.cls false) := by
  apply class_type
  calc optional .comments * {[t]} ≤ optional .comments * phrases n := mul_le_mul' le_rfl (token_le token)
    _ ≤ phrases dn := optional_le alone behind
    _ ≤ phrases .classType := single_le classType

theorem step_cls (next : nextCls commented t = some s) : read (.cls commented) * {[t]} ≤ read s := by
  cases t <;> rw [nextCls] at next <;> cases next
  case newline =>
    cases commented with
    | false => exact optional_absorbs rfl _ (newline_at_end rfl)
    | true => exact newline_at_end rfl
  case comment => exact comment_behind (fun commented => read (.cls commented)) rfl rfl (.inl rfl) commented
  case mcomment => exact comment_behind (fun commented => read (.cls commented)) rfl rfl (.inr rfl) commented
  case prop => exact class_declaration commented .prop .decoratedProp (by decide) (by decide) (by decide) (by decide)
  case signal => exact class_declaration commented .signal .decoratedSignal (by decide) (by decide) (by decide) (by decide)
  case slot => exact class_declaration commented .slot .decoratedSlot (by decide) (by decide) (by decide) (by decide)
  case model => exact class_declaration commented .model .decoratedModel (by decide) (by decide) (by decide) (by decide)
  case childrep => exact class_declaration commented .childRep .decoratedClass (by decide) (by decide) (by decide) (by decide)
  case flag => exact class_declaration commented .classFlag .decoratedClassFlag (by decide) (by decide) (by decide) (by decide)
  case enum => exact mul_le_mul' (read_cls_le commented) (token_le (by decide))
  case stop => exact (mul_le_mul' (read_cls_le commented) le_rfl).trans (body_stop .cls)

theorem inPod_le (place : PodPlace) : inPod place ≤ podTypeBegins := by
  cases place with
  | empty => exact le_self_add.trans le_self_add
  | member => exact le_add_self.trans le_self_add
  | comma => exact le_add_self

theorem read_pod_le (place : PodPlace) (commented : Bool) : read (.pod place commented) ≤ inPod place * optional .comments :=
  commented_le (fun commented => read (.pod place commented)) rfl rfl commented

theorem podType_le : podTypeBegins * phrases .podType ≤ inPod .member := by
  rw [podTypeBegins, add_mul, add_mul]
  refine add_le (add_le ?_ ?_) ?_
  · exact mul_le_mul' le_rfl (single_le (by decide))
  · exact at_end _ (two_le (by decide))
  · change inBody .pod * phrases .podTypes * phrases .captureComma * phrases .podType ≤ _
    rw [mul_assoc, mul_assoc]
    refine mul_le_mul' le_rfl ?_
    rw [← mul_assoc]
    exact three_le (by decide)

theorem inPod_newline (place : PodPlace) : inPod place * {[.newline]} ≤ inPod place := by
  cases place <;> exact newline_at_end rfl

theorem inPod_stop (last : place ≠ .comma) : inPod place ≤ inBody .pod * optional .podTypes := by
  cases place with
  | empty => exact le_mul_optional
  | member => exact mul_le_mul_optional
  | comma => contradiction

theorem parameterBegins_zero (place : PodPlace) : read (.pod place false) ≤ parameterBegins 0 := inPod_le place

theorem step_pod (next : nextPod place commented t = some s) : read (.pod place commented) * {[t]} ≤ read s := by
  have begins : read (.pod place commented) ≤ podTypeBegins * optional .comments :=
    (read_pod_le place commented).trans (mul_le_mul' (inPod_le place) le_rfl)
  cases t <;> rw [nextPod] at next
  case newline =>
    cases next
    cases commented with
    | false => exact inPod_newline place
    | true => exact newline_at_end rfl
  case comment =>
    cases next
    exact comment_behind (fun commented => read (.pod place commented)) rfl rfl (.inl rfl) commented
  case mcomment =>
    cases next
    exact comment_behind (fun commented => read (.pod place commented)) rfl rfl (.inr rfl) commented
  case flag =>
    cases next
    have flag : {[.flag]} ≤ phrases .podFlag := token_le (by decide)
    have decorated : optional .comments * phrases .podFlag ≤ phrases .decoratedPODFlag :=
      optional_le (by decide) (by decide)
    have podType : phrases .decoratedPODFlag ≤ phrases .podType := single_le (by decide)
    calc read (.pod place commented) * {[.flag]} ≤ podTypeBegins * optional .comments * phrases .podFlag := mul_le_mul' begins flag
      _ ≤ podTypeBegins * phrases .podType := at_end _ (decorated.trans podType)
      _ ≤ inPod .member := podType_le
  case enum =>
    cases next
    exact mul_le_mul' begins (token_le (by decide))
  case stop =>
    split at next
    · contradiction
    · rename_i last
      cases next
      calc read (.pod place commented) * {[.stop]} ≤ inBody .pod * optional .podTypes * optional .comments * {[.stop]} :=
            mul_le_mul' ((read_pod_le place commented).trans (mul_le_mul' (inPod_stop last) le_rfl)) le_rfl
        _ ≤ read (.global true) := body_stop .pod
  case comma =>
    split at next
    · rename_i uncommented
      obtain ⟨rfl, rfl⟩ := uncommented
      cases next
      exact mul_le_mul' le_rfl (token_le (by decide))
    · contradiction
  case qualifier =>
    cases commented with
    | false =>
      cases next
      exact mul_le_mul' (parameterBegins_zero place) (token_le (by decide))
    | true => contradiction
  case symbol =>
    cases commented with
    | false =>
      cases next
      exact mul_le_mul' ((parameterBegins_zero place).trans le_mul_optional) (token_le (by decide))
    | true => contradiction
  all_goals contradiction

end Bodies

section Parameters
variable {t : Terminal} {s : GrammarState} {place : ParameterPlace} {templates : Nat}

/-- The types within a template, up to here. -/
theorem types_le (templates : Nat) : parameterBegins (templates + 1) * phrases .decoratedParameterType ≤
    templateBegins templates * phrases .parameterTypes := by
  change templateBegins templates * (1 + phrases .parameterTypes * phrases .captureComma) * _ ≤ _
  apply at_end
  rw [add_mul, one_mul]
  apply add_le
  · exact single_le (by decide)
  · exact three_le (by decide)

/-- Behind a type of a parameter. -/
theorem decorated_type {L : Language Terminal} (le : L ≤ parameterBegins templates * phrases .decoratedParameterType)
    (next : nextTyped templates t = some s) : L * {[t]} ≤ read s := by
  cases t <;> rw [nextTyped] at next
  case symbol =>
    split at next
    · rename_i none
      obtain rfl := none
      cases next
      have name : {[.symbol]} ≤ phrases .parameterName :=
        (token_le (n := .symbol) (by decide)).trans (single_le (by decide))
      have parameter : phrases .decoratedParameterType * phrases .parameterName ≤ phrases .podType :=
        (two_le (n := .parameter) (by decide)).trans (single_le (by decide))
      calc L * {[.symbol]} ≤ podTypeBegins * phrases .decoratedParameterType * phrases .parameterName := mul_le_mul' le name
        _ ≤ podTypeBegins * phrases .podType := at_end _ parameter
        _ ≤ inPod .member := podType_le
    · contradiction
  case comma =>
    cases templates with
    | zero => contradiction
    | succ templates =>
      cases next
      have types := le.trans (types_le templates)
      exact mul_le_mul' types (token_le (by decide))
  case tstop =>
    cases templates with
    | zero => contradiction
    | succ templates =>
      cases next
      have types := le.trans (types_le templates)
      have template : phrases .templateTypename * phrases .tStart * phrases .parameterTypes * phrases .tStop ≤ phrases .parameterType :=
        (four_le (n := .templateType) (by decide)).trans
          (single_le (by decide))
      calc L * {[.tstop]} ≤ templateBegins templates * phrases .parameterTypes * phrases .tStop :=
            mul_le_mul' types (token_le (by decide))
        _ = parameterBegins templates * optional .qualified *
            (phrases .templateTypename * phrases .tStart * phrases .parameterTypes * phrases .tStop) := by
          simp only [templateBegins, mul_assoc]
        _ ≤ read (.parameter .typed templates) := mul_le_mul' le_rfl template
  all_goals contradiction

theorem symbol_le : phrases .symbol ≤ phrases .parameterType := (single_le (n := .simpleType) (by decide)).trans (single_le (by decide))

theorem unreferenced_le : optional .qualified * phrases .parameterType ≤ phrases .decoratedParameterType :=
  optional_le (by decide) (by decide)

theorem referenced_le : optional .qualified * phrases .parameterType * phrases .passByReference ≤ phrases .decoratedParameterType := by
  rw [mul_assoc]
  apply optional_mul_le
  · exact two_le (by decide)
  · rw [← mul_assoc]
    exact three_le (by decide)

theorem read_named_le : read (.parameter .named templates) ≤ read (.parameter .typed templates) := mul_le_mul' le_rfl symbol_le

theorem read_typed_le : read (.parameter .typed templates) ≤ parameterBegins templates * phrases .decoratedParameterType :=
  at_end _ unreferenced_le

theorem read_referenced_le : read (.parameter .referenced templates) ≤ parameterBegins templates * phrases .decoratedParameterType := by
  change parameterBegins templates * optional .qualified * phrases .parameterType * phrases .passByReference ≤ _
  rw [mul_assoc, mul_assoc]
  refine mul_le_mul' le_rfl ?_
  rw [← mul_assoc]
  exact referenced_le

/-- A type may begin behind a comma in a template. -/
theorem read_comma_le : read (.parameter .comma templates) ≤ parameterBegins templates := by
  cases templates with
  | zero => exact bot_le
  | succ templates =>
    change templateBegins templates * _ * _ ≤ templateBegins templates * (1 + _)
    rw [mul_assoc]
    exact mul_le_mul' le_rfl le_add_self

theorem begins_qualifier {L : Language Terminal} (le : L ≤ parameterBegins templates) :
    L * {[.qualifier]} ≤ read (.parameter .qualified templates) := mul_le_mul' le (token_le (by decide))

theorem begins_symbol {L : Language Terminal} (le : L ≤ parameterBegins templates * optional .qualified) :
    L * {[.symbol]} ≤ read (.parameter .named templates) := mul_le_mul' le (token_le (by decide))

theorem passbyqual_step {L : Language Terminal} (le : L ≤ read (.parameter .typed templates)) :
    L * {[.passbyqual]} ≤ read (.parameter .referenced templates) := mul_le_mul' le (token_le (by decide))

theorem step_parameter (next : nextParameter place templates t = some s) : read (.parameter place templates) * {[t]} ≤ read s := by
  cases place with
  | before =>
    cases t
    case qualifier =>
      cases next
      exact begins_qualifier le_rfl
    case symbol =>
      cases next
      exact begins_symbol le_mul_optional
    all_goals contradiction
  | comma =>
    cases t
    case newline =>
      cases next
      cases templates with
      | zero => exact (zero_mul _).le
      | succ templates => exact newline_at_end rfl
    case qualifier =>
      cases next
      exact begins_qualifier read_comma_le
    case symbol =>
      cases next
      exact begins_symbol (read_comma_le.trans le_mul_optional)
    all_goals contradiction
  | qualified =>
    cases t
    case symbol =>
      cases next
      exact begins_symbol mul_le_mul_optional
    all_goals contradiction
  | named =>
    cases t
    case tstart =>
      cases next
      calc read (.parameter .named templates) * {[.tstart]}
          ≤ parameterBegins templates * optional .qualified * phrases .templateTypename * phrases .tStart :=
            mul_le_mul' (mul_le_mul' le_rfl (single_le (by decide))) (token_le (by decide))
        _ = templateBegins templates * 1 := (mul_one _).symm
        _ ≤ read (.parameter .before (templates + 1)) := mul_le_mul' le_rfl le_self_add
    case passbyqual =>
      cases next
      exact passbyqual_step read_named_le
    all_goals exact decorated_type (read_named_le.trans read_typed_le) next
  | typed =>
    cases t
    case passbyqual =>
      cases next
      exact passbyqual_step le_rfl
    all_goals exact decorated_type read_typed_le next
  | referenced => exact decorated_type read_referenced_le next

end Parameters

section Enums
variable {t : Terminal} {s : GrammarState} {scope : Option Body} {place : EnumPlace}

theorem enum_start : enumBegins scope * phrases .enumStart * optional .comments * {[.start]} ≤ read (.enum scope .before) := by
  calc enumBegins scope * phrases .enumStart * optional .comments * {[.start]} ≤ inEnum scope := at_end _ start_le
    _ = inEnum scope * 1 := (mul_one _).symm
    _ ≤ inEnum scope * (1 + phrases .enumParams * phrases .comma) := mul_le_mul' le_rfl le_self_add
    _ ≤ read (.enum scope .before) := le_mul_optional

theorem enumParams_le {L : Language Terminal} (param : L ≤ phrases .decoratedEnumParam) :
    (1 + phrases .enumParams * phrases .comma) * L ≤ phrases .enumParams := by
  rw [add_mul, one_mul]
  apply add_le
  · exact param.trans (single_le (by decide))
  · exact (mul_le_mul' le_rfl param).trans (three_le (by decide))

theorem read_named_done : read (.enum scope .named) ≤ read (.enum scope .done) := by
  have param : optional .comments * phrases .symbol ≤ phrases .decoratedEnumParam := by
    refine (mul_le_mul' le_rfl (single_le (n := .enumParam) (by decide))).trans ?_
    exact optional_le (by decide) (by decide)
  change inEnum scope * _ * _ * _ ≤ _
  rw [mul_assoc, mul_assoc]
  exact mul_le_mul' le_rfl (enumParams_le param)

theorem enum_value : read (.enum scope .equals) * {[.value]} ≤ read (.enum scope .done) := by
  have value : phrases .symbol * phrases .equals * phrases .value ≤ phrases .enumParam :=
    three_le (by decide)
  have param : optional .comments * phrases .enumParam ≤ phrases .decoratedEnumParam :=
    optional_le (by decide) (by decide)
  calc read (.enum scope .equals) * {[.value]} ≤ read (.enum scope .equals) * phrases .value := mul_le_mul' le_rfl (token_le (by decide))
    _ = inEnum scope * ((1 + phrases .enumParams * phrases .comma) * (optional .comments * (phrases .symbol * phrases .equals * phrases .value))) := by
      simp only [read, enumParamBegins, mul_assoc]
    _ ≤ read (.enum scope .done) := mul_le_mul' le_rfl (enumParams_le ((mul_le_mul' le_rfl value).trans param))

theorem enum_newline : read (.enum scope .done) * {[.newline]} ≤ read (.enum scope .done) := newline_at_end rfl

theorem enum_comma : read (.enum scope .done) * {[.comma]} ≤ read (.enum scope .before) := by
  calc read (.enum scope .done) * {[.comma]} ≤ inEnum scope * phrases .enumParams * phrases .comma :=
        mul_le_mul' le_rfl (token_le (by decide))
    _ ≤ inEnum scope * (1 + phrases .enumParams * phrases .comma) := by
      rw [mul_assoc]
      exact mul_le_mul' le_rfl le_add_self
    _ ≤ read (.enum scope .before) := le_mul_optional

/-- An enum is a type, or a declaration in a class or a POD. -/
theorem enum_behind : enumBegins scope * phrases .enum ≤ read (behindEnum scope) := by
  have decorated : optional .comments * phrases .enum ≤ phrases .decoratedEnum :=
    optional_le (by decide) (by decide)
  obtain _ | _ | _ := scope
  · exact (mul_le_mul' le_rfl (single_le (by decide))).trans top_type
  · calc inClass * optional .comments * phrases .enum ≤ inClass * phrases .classType :=
          at_end _ (decorated.trans (single_le (by decide)))
      _ ≤ inBody .cls * phrases .classTypes := at_end _ classType_le
      _ ≤ read (.cls false) := mul_le_mul_optional
  · calc podTypeBegins * optional .comments * phrases .enum ≤ podTypeBegins * phrases .podType :=
          at_end _ (decorated.trans (single_le (by decide)))
      _ ≤ inPod .member := podType_le

theorem enum_stop : read (.enum scope .done) * {[.stop]} ≤ read (behindEnum scope) := by
  have whole : phrases .enumStart * phrases .start * phrases .enumParams * phrases .stop ≤ phrases .enum :=
    four_le (by decide)
  calc read (.enum scope .done) * {[.stop]} ≤ read (.enum scope .done) * phrases .stop := mul_le_mul' le_rfl (token_le (by decide))
    _ = enumBegins scope * (phrases .enumStart * phrases .start * phrases .enumParams * phrases .stop) := by
      simp only [read, inEnum, mul_assoc]
    _ ≤ enumBegins scope * phrases .enum := mul_le_mul' le_rfl whole
    _ ≤ read (behindEnum scope) := enum_behind

theorem before_newline : read (.enum scope .before) * {[.newline]} ≤ read (.enum scope .before) := by
  apply optional_absorbs rfl
  rw [mul_add, mul_one, add_mul]
  refine add_le_add (newline_at_end rfl) ?_
  rw [← mul_assoc]
  exact newline_at_end rfl

theorem before_comment (comments : Comments t) : read (.enum scope .before) * {[t]} ≤ read (.enum scope .before) := by
  change _ * optional .comments * _ ≤ _ * optional .comments
  rw [optional, mul_add, mul_one, add_mul]
  apply add_le
  · exact (first_comment comments _).trans le_add_self
  · exact (next_comment comments _).trans le_add_self

theorem step_enum_opening {commented : Bool} (next : nextEnum scope (.opening commented) t = some s) :
    read (.enum scope (.opening commented)) * {[t]} ≤ read s := by
  let places (commented : Bool) : Language Terminal := read (.enum scope (.opening commented))
  cases t
  case newline =>
    cases commented with
    | false => contradiction
    | true =>
      cases next
      exact newline_at_end rfl
  case comment =>
    cases next
    exact comment_behind places rfl rfl (.inl rfl) commented
  case mcomment =>
    cases next
    exact comment_behind places rfl rfl (.inr rfl) commented
  case start =>
    cases next
    exact (mul_le_mul' (commented_le places rfl rfl commented) le_rfl).trans enum_start
  all_goals contradiction

theorem step_enum (next : nextEnum scope place t = some s) : read (.enum scope place) * {[t]} ≤ read s := by
  cases place with
  | opening commented => exact step_enum_opening next
  | before =>
    cases t
    case newline =>
      cases next
      exact before_newline
    case comment =>
      cases next
      exact before_comment (.inl rfl)
    case mcomment =>
      cases next
      exact before_comment (.inr rfl)
    case symbol =>
      cases next
      exact mul_le_mul' le_rfl (token_le (by decide))
    all_goals contradiction
  | named =>
    cases t
    case equals =>
      cases next
      exact mul_le_mul' le_rfl (token_le (by decide))
    case newline =>
      cases next
      exact (mul_le_mul' read_named_done le_rfl).trans enum_newline
    case comma =>
      cases next
      exact (mul_le_mul' read_named_done le_rfl).trans enum_comma
    case stop =>
      cases next
      exact (mul_le_mul' read_named_done le_rfl).trans enum_stop
    all_goals contradiction
  | equals =>
    cases t <;> cases next
    exact enum_value
  | done =>
    cases t
    case newline =>
      cases next
      exact enum_newline
    case comma =>
      cases next
      exact enum_comma
    case stop =>
      cases next
      exact enum_stop
    all_goals contradiction

end Enums

section Sentences
variable {s u : GrammarState} {t : Terminal} {w : List Terminal}

/-- One token further, what has been read is again a product for the place. -/
theorem read_next (next : s.next t = some u) : read s * {[t]} ≤ read u := by
  cases s with
  | global types => exact step_global next
  | header body => exact step_header next
  | opening body => exact step_opening next
  | cls commented => exact step_cls next
  | pod place commented => exact step_pod next
  | parameter place templates => exact step_parameter next
  | enum scope place => exact step_enum next

theorem read_run {before : List Terminal} (here : before ∈ read s) (run : exec GrammarState.next s w = some u) : before ++ w ∈ read u := by
  induction w generalizing s before with
  | nil =>
    obtain rfl := Option.some.inj run
    rw [List.append_nil]
    exact here
  | cons t w ih =>
    obtain ⟨middle, next, rest⟩ := exec_cons.mp run
    rw [List.append_cons]
    exact ih (read_next next (Language.append_mem_mul here rfl)) rest

theorem generated_of_run (run : exec GrammarState.next (.global false) w = some (.global true)) : w ∈ repGrammar.language := by
  have nothing : [] ∈ read (.global false) := one_le_optional Language.nil_mem_one
  have all : w ∈ read (.global true) := read_run nothing run
  have sentence : optional .newlines * phrases .types ≤ phrases .topLevel :=
    optional_le (by decide) (by decide)
  exact sentence all

theorem run_of_generated (generated : w ∈ repGrammar.language) : exec GrammarState.next (.global false) w = some (.global true) := by
  obtain ⟨u, last, run⟩ := generated_leads generated
  obtain rfl := List.mem_singleton.mp last
  exact run

end Sentences

section Parse
variable {qt : Core} {s u : State qt} {ts : List Token} {text : QString}

def modes (ts : List Token) : List Terminal := ts.map Token.terminal

/-- No action refuses a token behind those that it is called for. -/
def ActionsAgree (s : State qt) (ts : List Token) : Prop :=
  ∀ before t after v, ts = before ++ t :: after → s.run before = .ok v → ∀ e, consume qt (v.parser.scan t) v.mode t.terminal ≠ .error e

theorem exec_of_run (run : s.run ts = .ok u) : exec GrammarState.next s.mode (modes ts) = some u.mode := by
  induction ts generalizing s with
  | nil =>
    obtain rfl := run_nil.mp run
    rfl
  | cons t ts ih =>
    obtain ⟨v, step, rest⟩ := run_cons.mp run
    exact exec_cons.mpr ⟨v.mode, (step_ok_iff.mp step).2, ih rest⟩

theorem agree_of_run (run : s.run ts = .ok u) : ActionsAgree s ts := by
  rintro before t after v rfl first e refused
  obtain ⟨v', again, rest⟩ := run_append.mp run
  obtain rfl := Except.ok.inj (first.symm.trans again)
  obtain ⟨w, step, _⟩ := run_cons.mp rest
  have agreed := (step_ok_iff.mp step).1
  rw [refused] at agreed
  contradiction

theorem run_of_exec {mode : GrammarState} (places : exec GrammarState.next s.mode (modes ts) = some mode) (agree : ActionsAgree s ts) :
    ∃ u, s.run ts = .ok u ∧ u.mode = mode := by
  induction ts generalizing s with
  | nil => exact ⟨s, run_nil.mpr rfl, Option.some.inj places⟩
  | cons t ts ih =>
    obtain ⟨next, there, rest⟩ := exec_cons.mp places
    cases consumed : consume qt (s.parser.scan t) s.mode t.terminal with
    | error e => exact absurd consumed (agree [] t ts s rfl (run_nil.mpr rfl) e)
    | ok parser =>
      have step : s.step t = .ok ⟨next, parser⟩ := step_ok_iff.mpr ⟨consumed, there⟩
      have agree : ActionsAgree ⟨next, parser⟩ ts := by
        rintro before t' after v rfl run
        exact agree (t :: before) t' after v rfl (run_cons.mpr ⟨_, step, run⟩)
      obtain ⟨u, run, last⟩ := ih rest agree
      exact ⟨u, run_cons.mpr ⟨_, step, run⟩, last⟩

/-- A text has an AST exactly if the lexer reads all of it, its tokens are a sentence of the grammar, and no action sets an
error. -/
theorem parse_succeeds_iff (qt : Core) (text : QString) : (∃ ast, parse qt text = .ok ast) ↔
    (scanned text).2 = true ∧ modes (scanned text).1 ∈ repGrammar.language ∧ ActionsAgree ({} : State qt) (scanned text).1 := by
  constructor
  · rintro ⟨ast, parsed⟩
    obtain ⟨last, run, all, mode, _⟩ := parse_ok_iff.mp parsed
    have places := exec_of_run run
    rw [mode] at places
    exact ⟨all, generated_of_run places, agree_of_run run⟩
  · rintro ⟨all, sentence, agree⟩
    obtain ⟨last, run, mode⟩ := run_of_exec (run_of_generated sentence) agree
    exact ⟨last.parser.ast, parse_ok_iff.mpr ⟨last, run, all, mode, rfl⟩⟩

end Parse
end RemoteObjects.Repc.Productions
