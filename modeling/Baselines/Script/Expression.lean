import Baselines.Script.Pattern

/-!
# Expressions

The rules of expressions. A rule calls the rules of other parts through `rules`, which gives the
rule for every goal.
-/

namespace Baselines.Script

/-! ## 1. Goals -/

/-- Where an expression stands. -/
structure Within where
  /-- Whether a statement may end after it. -/
  mayEnd : Bool
  /-- Whether `in` is no operator of it. -/
  noIn : Bool
  deriving DecidableEq

namespace Within

/-- Within brackets, where no statement ends. -/
def brackets : Within := ⟨false, false⟩

def statement : Within := ⟨true, false⟩

/-- What may stand after an operand. -/
def seam (w : Within) : Seam := if w.mayEnd then .ending true else .inner

end Within

/-- What can be read. -/
inductive Goal where
  | statement
  | block
  | expression (w : Within)
  /-- Operands joined by operators of at least a level. -/
  | joined (level : Nat) (w : Within)
  | operand (w : Within)
  /-- What follows `new`. -/
  | constructed (w : Within)
  | object
  | array
  | element

/-- A rule for every goal. -/
abbrev Rules := Goal → Rule

section

variable (rules : Rules)

/-- A rule, unless the statement ends first. -/
def withoutEnd (seam : Seam) (r : Rule) : Rule := fun c =>
  match approach seam c with
  | none => none
  | some _ => r c

def closing (m : Text) : Rule := markAfter .inner m

def inner : Rule := rules (.expression .brackets)

def expressions (w : Within) : Rule := fun c =>
  match rules (.expression w) c with
  | none => none
  | some (xs, c) =>
    match Rule.many (Rule.both (markAfter w.seam [',']) (rules (.expression w))) c with
    | some ([], _) => some (xs, c)
    | some (more, c) => some (graft .sequence xs more c.pos, c)
    | none => none

-- An expression after three dots.
def spread : Rule := tree .spreadElement (Rule.both (mark "...") (inner rules))

/-- An expression in parentheses, as conditions are. -/
def condition : Rule :=
  tree .parenthesized (Rule.all [mark "(", expressions rules .brackets, closing ")"])

/-! ## 2. Names of properties -/

/-- A name that is no reserved word. -/
def plainName : Rule := nameAs .identifier

-- A name after a dot; any word will do.
def propertyWord : Rule := wordLike .propertyIdentifier fun _ => true

-- A name with properties after dots; the first argument bounds their number.
def dottedUpTo : Nat → List Node → Cursor → List Node × Cursor
  | 0, xs, c => (xs, c)
  | n + 1, xs, c =>
    match Rule.both (mark ".") propertyWord c with
    | none => (xs, c)
    | some (more, c) => dottedUpTo n (graft .member xs more c.pos) c

def dotted (name : Rule) : Rule := fun c =>
  match name c with
  | none => none
  | some (xs, c) => some (dottedUpTo (c.rest.length + 1) xs c)

def propertyName : Rule :=
  Rule.any [propertyWord, privateName, lexeme .string stringLength?, lexeme .number numberLength?,
    tree .computedName (Rule.all [mark "[", inner rules, closing "]"])]

/-! ## 3. Functions and classes -/

def parameters : Rule :=
  Rule.change (fun ns => if isParameterList ns then Node.patterns? .element ns else none)
    (Rule.all [mark "(", commaList (Rule.or (spread rules) (inner rules)), closing ")"]) |>
    tree .formalParameters

def argumentsAfter (seam : Seam) : Rule :=
  tree .arguments
    (Rule.all [markAfter seam "(", commaList (Rule.or (spread rules) (inner rules)), closing ")"])

/-- The words before a function, and its name by another rule. -/
def functionHead (star : Rule) (name : Rule) : Rule :=
  Rule.all [Rule.maybe (Rule.both (word "async") (withoutEnd (.ending true) Rule.nothing)),
    word "function", star, name]

def functionExpression : Rule :=
  let tail := Rule.both (parameters rules) (rules .block)
  Rule.or
    (tree .generatorFunction
      (Rule.both (functionHead (mark "*") (Rule.maybe plainName)) tail))
    (tree .functionExpression
      (Rule.both (functionHead Rule.nothing (Rule.maybe plainName)) tail))

-- The words `static get` where a line end follows, which belong together.
def staticGet : Rule :=
  leafAt .fresh fun t =>
    match Text.dropLead? "static" t with
    | none => none
    | some r =>
      let gap := (r.takeWhile isSpace).length
      match Text.dropLead? "get" (r.drop gap) with
      | none => none
      | some s =>
        let blank := s.takeWhile isSpace
        let kept := Text.dropEndWhile (· ≠ '\n') blank
        if gap = 0 ∨ kept = [] then none
        else some (.mark "static get", 9 + gap + kept.length)

def decorator : Rule :=
  let called : Rule := fun c =>
    match dotted plainName c with
    | none => none
    | some (xs, c) =>
      match argumentsAfter rules .fresh c with
      | none => some (xs, c)
      | some (more, c) => some (graft .call xs more c.pos, c)
  tree .decorator (Rule.both (mark "@") (Rule.or called (condition rules)))

-- A method; in a class a line end after a word before its name makes that word a field.
def method (inClass : Bool) : Rule :=
  let stay : Rule := if inClass then withoutEnd (.ending false) Rule.nothing else Rule.nothing
  let tail := Rule.all [propertyName rules, parameters rules, rules .block]
  let accessor := Rule.any
    [Rule.all [Rule.or (word "get") (word "set"), stay, tail], Rule.both (mark "*") tail, tail]
  let later := Rule.or (Rule.all [word "async", stay, accessor]) accessor
  tree .methodDefinition
    (Rule.both (Rule.many (decorator rules))
      (Rule.or (Rule.both staticGet later)
        (Rule.barring staticGet (Rule.or (Rule.all [word "static", stay, later]) later))))

/-- The value that a variable or field begins with. -/
def initializer (w : Within) : Rule :=
  Rule.both (markAfter (if w.mayEnd then .ending false else .inner) "=") (rules (.expression w))

def field : Rule := fun c =>
  let stay := withoutEnd (.ending false) Rule.nothing
  let named := Rule.both (propertyName rules) (Rule.maybe (initializer rules .statement))
  let whole := tree .fieldDefinition
    (Rule.both (Rule.many (decorator rules))
      (Rule.or (Rule.all [word "static", stay, named]) named))
  match whole c with
  | none => none
  | some (xs, c) =>
    let valued := xs.getLast?.any fun n => n.children.any (·.isMark "=")
    Rule.both (fun c => some (xs, c)) (semicolon valued) c

def classMember : Rule :=
  Rule.any
    [mark ";",
      tree .staticBlock
        (Rule.all [word "static", withoutEnd (.ending false) Rule.nothing, rules .block]),
      Rule.both (method rules true) (Rule.maybe (mark ";")), field rules]

/-- What comes after the name of a class. -/
def classTail : Rule :=
  Rule.both (Rule.maybe (tree .classHeritage (Rule.both (word "extends") (inner rules))))
    (tree .classBody (Rule.all [mark ['{'], Rule.many (classMember rules), mark ['}']]))

def classExpression : Rule :=
  tree .classExpression
    (Rule.all [Rule.many (decorator rules), word "class", Rule.maybe plainName, classTail rules])

/-! ## 4. Objects and arrays -/

def objectMember : Rule :=
  Rule.any
    [spread rules,
      tree .pair (Rule.all [propertyName rules, mark ":", inner rules]),
      method rules false,
      tree .objectAssignmentPattern
        (Rule.all [nameAs .shorthandPattern, mark "=", inner rules]),
      nameAs .shorthand]

def object : Rule :=
  tree .object (Rule.all [mark ['{'], commaList (objectMember rules), closing ['}']])

def array : Rule :=
  tree .array (Rule.all [mark "[", commaList (Rule.or (spread rules) (inner rules)), closing "]"])

/-! ## 5. Templates -/

-- Literal characters, read where they stand.
def lexemeHere (shape : Shape) (length? : Text → Option Nat) : Rule := fun c =>
  (length? c.rest).map fun n => ([.leaf (.named shape) c.pos (c.pos + n)], c.skip n)

-- A mark, read where it stands.
def markHere (m : Text) : Rule := fun c =>
  if Text.startsWith c.rest m then
    some ([.leaf (.mark m) c.pos (c.pos + m.length)], c.skip m.length)
  else none

def templateAfter (seam : Seam) : Rule :=
  let fragment := lexemeHere .stringFragment fun t =>
    let n := templateRun t
    if n = 0 then none else some n
  let substitution := tree .templateSubstitution
    (Rule.all [markHere ['$', '{'], expressions rules .brackets, closing ['}']])
  tree .templateString
    (Rule.all [markAfter seam ['\x60'],
      Rule.many (Rule.any [fragment, lexemeHere .escapeSequence escapeLength?, substitution]),
      markHere ['\x60']])

/-! ## 6. Elements -/

-- A name of an element or attribute.
def jsxName (shape : Shape) : Rule := lexeme shape jsxNameLength?

-- A name with another in front of a colon.
def jsxNamespaced : Rule :=
  tree .jsxNamespaceName (Rule.all [jsxName .identifier, mark ":", jsxName .identifier])

-- The name of an element, which may have properties after dots.
def jsxElementName : Rule :=
  Rule.or jsxNamespaced (dotted (jsxName .identifier))

/-- An expression in braces, or nothing in braces. -/
def jsxExpression : Rule :=
  tree .jsxExpression
    (Rule.all
      [mark ['{'], Rule.maybe (Rule.or (spread rules) (expressions rules .brackets)),
        closing ['}']])

def jsxAttribute : Rule :=
  let value := Rule.any [lexeme .string jsxStringLength?, jsxExpression rules, rules .element]
  Rule.or (jsxExpression rules)
    (tree .jsxAttribute
      (Rule.both (Rule.or jsxNamespaced (jsxName .propertyIdentifier))
        (Rule.maybe (Rule.both (mark "=") value))))

/-- An element, with its content and its end if it is not empty. -/
def element : Rule :=
  let named := Rule.both jsxElementName (Rule.many (jsxAttribute rules))
  let child := Rule.any
    [lexemeHere .jsxText jsxTextLength?, lexeme .characterReference referenceLength?,
      rules .element, jsxExpression rules]
  Rule.or (tree .jsxSelfClosing (Rule.all [mark "<", named, mark "/>"]))
    (tree .jsxElement
      (Rule.all
        [tree .jsxOpening (Rule.all [mark "<", Rule.maybe named, mark ">"]), Rule.many child,
          tree .jsxClosing (Rule.all [mark "</", Rule.maybe jsxElementName, mark ">"])]))

/-! ## 7. Arrow functions -/

/-- What is read from a brace on: a block or an object. An object is preferred where the brace is
followed by a name and a colon. -/
def blockOrElse (asBlock asObject : Rule) : Rule :=
  let labelled := Rule.ahead (Rule.all [mark ['{'], plainName, mark ":"])
  Rule.or (Rule.both labelled asObject) (Rule.or asBlock asObject)

-- The arrow and the body of an arrow function.
def arrowTail (w : Within) : Rule :=
  let body := rules (.expression w)
  Rule.both (markAfter w.seam "=>")
    (Rule.or (Rule.both (Rule.ahead (mark ['{'])) (blockOrElse (rules .block) body))
      (Rule.barring (mark ['{']) body))

-- An arrow function whose parameters are read by another rule.
def arrow (w : Within) (head : Rule) : Rule :=
  tree .arrowFunction (Rule.both head (arrowTail rules w))

/-- What begins with a parenthesis: parameters and an arrow, or expressions. -/
def parenthesized (w : Within) : Rule := fun c =>
  let listed := tree .parenthesized
    (Rule.all [mark "(", commaList (Rule.or (spread rules) (inner rules)), closing ")"])
  match listed c with
  | none => none
  | some (xs, c) =>
    match xs.getLast? with
    | none => none
    | some n =>
      -- only the arrow tells parameters from expressions
      if (Rule.ahead (markAfter w.seam "=>") c).isSome then
        if isParameterList n.children then
          match n.children |> Node.patterns? .element with
          | none => none
          | some cs =>
            let head := xs.dropLast ++ [.node (.named .formalParameters) n.start n.stop cs]
            arrow rules w (fun c => some (head, c)) c
        else none
      else if isExpressionList n.children then some (xs.dropLast ++ [grouped n], c)
      else none
where
  /-- Several expressions in parentheses as a sequence. -/
  grouped (n : Node) : Node :=
    let parts := n.children
    let items := (parts.drop 1).dropLast
    if items.any (·.isMark [',']) then
      let lead := items.takeWhile Node.isComment
      let rest := items.drop lead.length
      match rest.head?, rest.getLast? with
      | some a, some z =>
        .node (.named .parenthesized) n.start n.stop
          (parts.take 1 ++ lead ++ [.node (.named .sequence) a.start z.stop rest] ++
            (parts.drop (parts.length - 1)))
      | _, _ => n
    else n

-- What begins with `async`: a function, an arrow function, a call, or just a name.
def asyncOperand (w : Within) : Rule := fun c =>
  let name := wordLike .identifier fun t => t = "async"
  let lead := Rule.both (word "async") (withoutEnd w.seam Rule.nothing)
  match Rule.ahead (Rule.both lead (mark "(")) c with
  | none =>
    Rule.any
      [functionExpression rules,
        arrow rules w (Rule.both lead plainName),
        arrow rules w name, name] c
  | some _ =>
    match Rule.both name (argumentsAfter rules w.seam) c with
    | none => none
    | some (xs, c') =>
      match Rule.ahead (markAfter w.seam "=>") c', xs.getLast? with
      | some _, some n =>
        if isParameterList n.children then
          match Node.patterns? .element n.children with
          | none => none
          | some cs =>
            -- before parameters `async` is no name but a word of the arrow function
            let asWord := xs.dropLast.map fun m =>
              if m.is .identifier then .leaf (.mark "async") m.start m.stop else m
            let head := asWord ++ [.node (.named .formalParameters) n.start n.stop cs]
            arrow rules w (fun c => some (head, c)) c'
        else none
      | some _, none => none
      | none, _ =>
        let lead := xs.takeWhile Node.isComment
        some (lead ++ [.node (.named .call) (beginning c'.pos xs) c'.pos (xs.drop lead.length)], c')

/-! ## 8. Operands -/

-- The words that stand for themselves as operands.
def constants : List Text := ["this", "super", "true", "false", "null", "undefined"]

-- An operand without operators.
def atom (w : Within) : Rule :=
  let imported := Rule.any
    [tree .metaProperty (Rule.all [word "import", mark ".", word "meta"]),
      Rule.both (word "import") (Rule.ahead (Rule.any [mark "(", mark ".", mark "?."]))]
  Rule.any
    [parenthesized rules w, rules .array, rules .object, templateAfter rules .fresh,
      lexeme .string stringLength?, lexeme .number numberLength?, lexeme .regex regexLength?,
      rules .element, oneWord constants, imported,
      Rule.both (Rule.ahead (Rule.or (mark "@") (word "class"))) (classExpression rules),
      Rule.both (Rule.ahead (word "function")) (functionExpression rules),
      Rule.both (Rule.ahead (word "async")) (asyncOperand rules w),
      arrow rules w plainName, Rule.barring (word "yield") plainName]

-- The operators and marks that may follow an operand, longer ones first.
def followers : List Text :=
  ([">>>=", "===", "!==", ">>>", "**=", "<<=", ">>=", "&&=", "||=", "??=", "=>", "==", "!=", "<=",
    ">=", "&&", "||", "??", "?.", "++", "--", "+=", "-=", "*=", "/=", "%=", "&=", "|=", "^=", "<<",
    ">>", "**", "=", "<", ">", "+", "-", "*", "/", "%", "&", "|", "^", "?", ".", "(", "[", "\x60"] :
    List String).map String.toList

/-- The operator or mark that a text begins with. -/
def follower? (t : Text) : Option Text := followers.find? (Text.startsWith t)

-- Whether templates may follow an expression.
def takesTemplate (n : Node) : Bool :=
  !(n.is .update || n.is .jsxElement || n.is .jsxSelfClosing)

-- A property, an index, arguments or a template after an operand; what comes after `new` takes no
-- arguments, and no step up or down.
def suffix? (w : Within) (calls : Bool) (xs : List Node) (c : Cursor) : Option (Shape × Rule) := do
  let a ← approach w.seam c
  let n ← xs.getLast?
  let m ← follower? a.token.rest
  let property := Rule.or propertyWord privateName
  let index := fun (r : Rule) => Rule.all [r, expressions rules .brackets, closing "]"]
  if m = "." then some (.member, Rule.both (markAfter w.seam ".") property)
  else if m = "[" then some (.subscript, index (markAfter w.seam "["))
  else if m = "?." then
    -- before a digit the question mark asks a choice, and the point begins a number
    if (a.token.rest.drop 2).head?.any Char.isDigit then none
    else
      let chain := leafAt w.seam fun _ => some (.named .optionalChain, 2)
      let after := (Rule.both chain (Rule.ahead (mark "[")) c).isSome
      let called := (Rule.both chain (Rule.ahead (mark "(")) c).isSome
      if after then some (.subscript, index (Rule.both chain (mark "[")))
      else if called then some (.call, Rule.both chain (argumentsAfter rules .fresh))
      else some (.member, Rule.both chain property)
  else if m = "(" ∧ calls then some (.call, argumentsAfter rules w.seam)
  else if m = "\x60" ∧ takesTemplate n then some (.call, templateAfter rules w.seam)
  else if (m = "++" ∨ m = "--") ∧ calls then some (.update, markAfter w.seam m)
  else none

-- An operand with all that follows it; the first argument bounds how much.
def suffixes (w : Within) (calls : Bool) : Nat → List Node → Cursor → Option (List Node × Cursor)
  | 0, xs, c => some (xs, c)
  | n + 1, xs, c =>
    match suffix? rules w calls xs c with
    | none => some (xs, c)
    | some (shape, r) =>
      match r c with
      | none => none
      | some (more, c) => suffixes w calls n (graft shape xs more c.pos) c

-- An operand by a rule, with all that follows it.
def withSuffixes (w : Within) (calls : Bool) (r : Rule) : Rule := fun c =>
  match r c with
  | none => none
  | some (xs, c) => suffixes rules w calls (c.rest.length + 1) xs c

-- What comes after `new`: another one, or an operand without arguments.
def newOperand (w : Within) : Rule :=
  Rule.or (tree .metaProperty (Rule.all [word "new", mark ".", word "target"]))
    (tree .newExpression
      (Rule.all [word "new", rules (.constructed w), Rule.maybe (argumentsAfter rules w.seam)]))

/-- What can be made by `new`. -/
def constructed (w : Within) : Rule :=
  Rule.or (Rule.both (Rule.ahead (word "new")) (newOperand rules w))
    (withSuffixes rules w false (atom rules w))

/-- The operators that assign the result of an operation. -/
def updating : List Text :=
  ["+=", "-=", "*=", "/=", "%=", "^=", "&=", "|=", ">>=", ">>>=", "<<=", "**=", "&&=", "||=", "??="]

/-- An operand, or an assignment to it. -/
def assigned (w : Within) (r : Rule) : Rule := fun c =>
  match r c with
  | none => none
  | some (xs, c) =>
    match approach w.seam c, xs.getLast? with
    | some a, some n =>
      match follower? a.token.rest with
      | some m =>
        if m = "=" then
          match assignee? n, Rule.both (markAfter w.seam "=") (rules (.expression w)) c with
          | some n, some (more, c) => some (graft .assignment (xs.dropLast ++ [n]) more c.pos, c)
          | _, _ => none
        else if updating.contains m then
          match isUpdatable n, Rule.both (markAfter w.seam m) (rules (.expression w)) c with
          | true, some (more, c) => some (graft .augmentedAssignment xs more c.pos, c)
          | _, _ => none
        else some (xs, c)
      | none => some (xs, c)
    | _, _ => some (xs, c)

/-- A sign before an operand. -/
def sign (s : Text) : Rule := Rule.barring (mark (s ++ s)) (mark s)

/-- An operand with the operators before and after it, or an assignment to it. -/
def operand (w : Within) : Rule :=
  let more := rules (.operand w)
  Rule.any
    [tree .update (Rule.both (Rule.or (mark "++") (mark "--")) more),
      tree .unary
        (Rule.both
          (Rule.any [mark "!", mark "~", sign "+", sign "-", oneWord ["typeof", "void", "delete"]])
          more),
      tree .awaitExpression (Rule.both (word "await") (withoutEnd w.seam more)),
      tree .yieldExpression
        (Rule.both (word "yield")
          (Rule.maybe (withoutEnd w.seam
            (Rule.or (Rule.both (mark "*") (rules (.expression w))) (rules (.expression w)))))),
      tree .binary
        (Rule.all [privateName, wordAfter w.seam "in", rules (.joined 9 w)]),
      assigned rules w (withSuffixes rules w true
        (Rule.or (Rule.both (Rule.ahead (word "new")) (newOperand rules w)) (atom rules w)))]

/-! ## 9. Operators -/

-- The operators between two operands, by how strongly they bind.
def levels : List (Text × Nat) :=
  [("??", 1), ("||", 2), ("&&", 3), ("|", 4), ("^", 5), ("&", 6), ("==", 7), ("!=", 7), ("===", 7),
    ("!==", 7), ("<", 8), (">", 8), ("<=", 8), (">=", 8), ("<<", 9), (">>", 9), (">>>", 9),
    ("+", 10), ("-", 10), ("*", 11), ("/", 11), ("%", 11), ("**", 12)]

-- The level of `in` and `instanceof`.
def relationLevel : Nat := 8

-- The operator that comes next, its level, and the least level of its right operand.
def operator? (w : Within) (t : Text) : Option (Text × Nat × Nat) :=
  match wordOf? t with
  | some o =>
    if o = "instanceof" ∨ (o = "in" ∧ !w.noIn) then some (o, relationLevel, relationLevel + 1)
    else none
  | none =>
    match follower? t with
    | none => none
    | some m =>
      match levels.find? (·.1 = m) with
      | none => none
      -- powers group from the right, all others from the left
      | some (_, k) => some (m, k, if m = "**" then k else k + 1)

-- Whether a question mark may come where it is: only white space stands before it.
def takesQuestion (w : Within) (a : Approach) : Bool :=
  let gap := a.seam.rest.take (a.token.pos - a.seam.pos)
  gap.all fun x => isSpace x || (w.mayEnd && isLineEnd x)

-- Whether a text begins with the question mark of a choice.
def asksChoice : Text → Bool
  | '?' :: '?' :: _ => false
  | '?' :: '.' :: c :: _ => c.isDigit
  | ['?', '.'] => false
  | '?' :: _ => true
  | _ => false

-- The rest of a choice after its condition.
def choiceTail (w : Within) : Rule :=
  Rule.all [markAfter w.seam "?", inner rules, closing ":", rules (.expression w)]

-- Operators and operands after a first operand; the first argument bounds their number.
def joinedTail (level : Nat) (w : Within) : Nat → List Node → Cursor → Option (List Node × Cursor)
  | 0, xs, c => some (xs, c)
  | n + 1, xs, c =>
    match approach w.seam c with
    | none => some (xs, c)
    | some a =>
      if asksChoice a.token.rest then
        if level = 0 ∧ takesQuestion w a then
          match choiceTail rules w c with
          | none => none
          | some (more, c) => joinedTail level w n (graft .ternary xs more c.pos) c
        else some (xs, c)
      else match operator? w a.token.rest with
        | none => some (xs, c)
        | some (o, k, least) =>
          if k < level then some (xs, c)
          else
            let sign := leafAt w.seam fun _ => some (.mark o, o.length)
            match Rule.both sign (rules (.joined least w)) c with
            | none => none
            | some (more, c) => joinedTail level w n (graft .binary xs more c.pos) c

/-- Operands joined by operators of at least a level. -/
def joined (level : Nat) (w : Within) : Rule := fun c =>
  match rules (.operand w) c with
  | none => none
  | some (xs, c) => joinedTail rules level w (c.rest.length + 1) xs c

end

end Baselines.Script
