import Baselines.Script.Expression

/-!
# Statements

The rules of statements and declarations, and of whole scripts.
-/

namespace Baselines.Script

section

variable (rules : Rules)

/-! ## 1. Declarations -/

/-- What a declaration gives values to: a name or a pattern. -/
def declared : Rule :=
  Rule.or plainName
    (Rule.change (fun ns => do
        let n ← ns.getLast?
        let p ← n.pattern? .target
        some (ns.dropLast ++ [p]))
      (Rule.or (rules .array) (rules .object)))

-- A declared name or pattern, and its value if it has one.
def declarator : Rule :=
  tree .variableDeclarator (Rule.both (declared rules) (Rule.maybe (initializer rules .statement)))

-- Whether the last of the trees has a value.
def endsValued (xs : List Node) : Bool :=
  xs.getLast?.any fun n => n.children.any (·.isMark "=")

-- Declarators with commas between; the first argument bounds their number.
def declaratorsUpTo : Nat → List Node → Cursor → List Node × Cursor
  | 0, xs, c => (xs, c)
  | n + 1, xs, c =>
    match Rule.both (markAfter (.ending (endsValued xs)) ",") (declarator rules) c with
    | none => (xs, c)
    | some (more, c) => declaratorsUpTo n (xs ++ more) c

-- Declarators and the end of the statement.
def declarators : Rule := fun c =>
  match declarator rules c with
  | none => none
  | some (xs, c) =>
    let (xs, c) := declaratorsUpTo rules c.rest.length xs c
    Rule.both (fun c => some (xs, c)) (semicolon (endsValued xs)) c

-- What has to follow `let`, so that it is no name.
def afterLet : Rule :=
  withoutEnd (.ending true) (Rule.ahead (Rule.any [plainName, mark "[", mark ['{']]))

def variableList : Rule :=
  Rule.any
    [tree .variableDeclaration (Rule.both (word "var") (declarators rules)),
      tree .lexicalDeclaration (Rule.both (word "const") (declarators rules)),
      tree .lexicalDeclaration (Rule.all [word "let", afterLet, declarators rules]),
      tree .usingDeclaration
        (Rule.all [Rule.maybe (word "await"), word "using", afterLet, declarators rules])]

-- What a function as a declaration begins with.
def functionStart : Rule :=
  Rule.ahead (functionHead (Rule.maybe (mark "*")) plainName)

def functionDeclaration : Rule :=
  let tail := Rule.both (parameters rules) (rules .block)
  Rule.or
    (tree .generatorDeclaration (Rule.both (functionHead (mark "*") plainName) tail))
    (tree .functionDeclaration (Rule.both (functionHead Rule.nothing plainName) tail))

-- What a class as a declaration begins with.
def classStart : Rule :=
  Rule.ahead (Rule.all [Rule.many (decorator rules), word "class", plainName])

def classDeclaration : Rule :=
  tree .classDeclaration
    (Rule.all [Rule.many (decorator rules), word "class", plainName, classTail rules])

def declaration : Rule :=
  Rule.any
    [Rule.both functionStart (functionDeclaration rules),
      Rule.both (classStart rules) (classDeclaration rules), variableList rules]

/-! ## 2. Modules -/

-- A name that a module gives something.
def exportedName : Rule :=
  Rule.any [plainName, lexeme .string stringLength?, word "default"]

/-- The module that something is taken from. -/
def source : Rule := Rule.both (word "from") (lexeme .string stringLength?)

-- Items in braces with commas between; a comma may follow the last.
def braced (item : Rule) : Rule :=
  Rule.all
    [mark ['{'], Rule.maybe (Rule.both (separated (mark ",") item) (Rule.maybe (mark ","))),
      mark ['}']]

-- The end of a statement that no operator could go on with.
def plainEnd : Rule := semicolon false

def exportStatement : Rule :=
  let clause := tree .exportClause (braced
    (tree .exportSpecifier
      (Rule.both exportedName (Rule.maybe (Rule.both (word "as") exportedName)))))
  let all :=
    Rule.or (tree .namespaceExport (Rule.all [mark "*", word "as", exportedName])) (mark "*")
  tree .exportStatement
    (Rule.both (Rule.many (decorator rules))
      (Rule.both (word "export")
        (Rule.any
          [Rule.all [all, source, plainEnd],
            Rule.all [clause, Rule.maybe source, plainEnd],
            Rule.both (word "default")
              (Rule.or (declaration rules)
                (Rule.barring (Rule.or functionStart (classStart rules))
                  (Rule.both (rules (.expression .statement)) (semicolon true)))),
            declaration rules])))

def importStatement : Rule :=
  let everything := tree .namespaceImport (Rule.all [mark "*", word "as", plainName])
  let chosen := tree .namedImports (braced
    (tree .importSpecifier
      (Rule.or (Rule.all [exportedName, word "as", plainName]) plainName)))
  let others := Rule.or everything chosen
  let clause := tree .importClause
    (Rule.or others (Rule.both plainName (Rule.maybe (Rule.both (mark ",") others))))
  let properties := tree .importAttribute (Rule.both (word "with") (rules .object))
  tree .importStatement
    (Rule.all
      [word "import", Rule.or (Rule.both clause source) (lexeme .string stringLength?),
        Rule.maybe properties, plainEnd])

/-! ## 3. Simple statements -/

def expressionStatement : Rule :=
  tree .expressionStatement
    (Rule.both (Rule.barring (Rule.both (word "let") afterLet) (expressions rules .statement))
      (semicolon true))

/-- A word with expressions after it, which may be left out. -/
def returnStatement : Rule :=
  tree .returnStatement
    (Rule.both (word "return")
      (Rule.or
        (Rule.both (withoutEnd (.ending false) (expressions rules .statement)) (semicolon true))
        plainEnd))

-- A word with a label after it, which may be left out.
def jump (shape : Shape) (w : Text) : Rule :=
  tree shape
    (Rule.all
      [word w, Rule.maybe (withoutEnd (.ending false) (nameAs .statementIdentifier)), plainEnd])

def emptyStatement : Rule := tree .emptyStatement (mark ";")

def labeledStatement : Rule :=
  tree .labeledStatement
    (Rule.all
      [wordLike .statementIdentifier fun w =>
          !reserved.contains w && !(["yield", "undefined"] : List Text).contains w,
        markAfter (.ending true) ":", rules .statement])

/-! ## 4. Compound statements -/

/-- Statements in braces. -/
def block : Rule :=
  tree .statementBlock (Rule.all [mark ['{'], Rule.many (rules .statement), mark ['}']])

/-- A choice between statements. -/
def ifStatement : Rule :=
  tree .ifStatement
    (Rule.all
      [word "if", condition rules, rules .statement,
        Rule.maybe (tree .elseClause (Rule.both (word "else") (rules .statement)))])

/-- A choice between cases. -/
def switchStatement : Rule :=
  let body := Rule.many (rules .statement)
  let case := Rule.or
    (tree .switchCase
      (Rule.all [word "case", expressions rules .brackets, closing ":", body]))
    (tree .switchDefault (Rule.all [word "default", mark ":", body]))
  tree .switchStatement
    (Rule.all
      [word "switch", condition rules,
        tree .switchBody (Rule.all [mark ['{'], Rule.many case, mark ['}']])])

-- What goes through the items of something: a declaration, or something that is assigned to.
def forTarget : Rule :=
  let within : Within := ⟨false, true⟩
  let assigned := Rule.change (fun ns => do
      let n ← ns.getLast?
      let p ← assignee? n
      some (ns.dropLast ++ [p]))
    (rules (.operand .brackets))
  Rule.any
    [Rule.all [word "var", declared rules, Rule.maybe (initializer rules within)],
      Rule.both (Rule.or (word "let") (word "const")) (declared rules),
      Rule.all [Rule.maybe (word "await"), word "using", declared rules], assigned]

/-- A loop over the items or keys of something. -/
def forInStatement : Rule :=
  tree .forInStatement
    (Rule.all
      [word "for", Rule.maybe (word "await"), mark "(", forTarget rules,
        Rule.or (wordAfter .inner "in") (wordAfter .inner "of"), expressions rules .brackets,
        closing ")", rules .statement])

/-- A loop with a start, a condition and a step. -/
def forStatement : Rule :=
  let part := Rule.or (Rule.both (expressions rules .brackets) (closing ";")) emptyStatement
  tree .forStatement
    (Rule.all
      [word "for", mark "(", Rule.or (variableList rules) part, part,
        Rule.maybe (expressions rules .brackets), closing ")", rules .statement])

/-- A loop with its condition first. -/
def whileStatement : Rule :=
  tree .whileStatement (Rule.all [word "while", condition rules, rules .statement])

/-- A loop with its condition last. -/
def doStatement : Rule :=
  tree .doStatement
    (Rule.all [word "do", rules .statement, word "while", condition rules, Rule.maybe plainEnd])

/-- A block with what to do when it fails, and at its end. -/
def tryStatement : Rule :=
  let handler := tree .catchClause
    (Rule.all
      [word "catch", Rule.maybe (Rule.all [mark "(", declared rules, closing ")"]), rules .block])
  let finalizer := tree .finallyClause (Rule.both (word "finally") (rules .block))
  tree .tryStatement
    (Rule.all [word "try", rules .block, Rule.maybe handler, Rule.maybe finalizer])

/-- A statement within the names of an object. -/
def withStatement : Rule :=
  tree .withStatement (Rule.all [word "with", condition rules, rules .statement])

/-! ## 5. Statements -/

-- Whether a text can only go on with an expression before it.
def goesOn (t : Text) : Bool :=
  match wordOf? t with
  | some w => w = "in" ∨ w = "instanceof"
  | none =>
    match follower? t with
    | some m => !(["++", "--", "+", "-", "/", "<", "(", "[", "\x60"] : List Text).contains m
    | none => t.head? = some ','

-- Whether an expression goes on after a place.
def goesOnAt (c : Cursor) : Bool :=
  match approach (.ending true) c with
  | some a => goesOn a.token.rest
  | none => false

-- A rule, or an expression as a statement where the rule stops before something that goes on.
def orExpression (r : Rule) : Rule := fun c =>
  match r c with
  | none => none
  | some (xs, c') =>
    if goesOnAt c' then Rule.or (expressionStatement rules) (fun _ => some (xs, c')) c
    else some (xs, c')

-- What begins with a brace: a block, or an object as an expression.
def braceStatement : Rule :=
  let asObject := Rule.when (fun ns => !Node.anyStray ns) (expressionStatement rules)
  blockOrElse (Rule.or (orExpression rules (rules .block)) asObject) asObject

def statement : Rule :=
  Rule.any
    [Rule.both (Rule.ahead (mark ['{'])) (braceStatement rules), emptyStatement, ifStatement rules,
      forInStatement rules, forStatement rules, whileStatement rules, doStatement rules,
      switchStatement rules, tryStatement rules, withStatement rules, returnStatement rules,
      tree .throwStatement
        (Rule.all [word "throw", expressions rules .statement, semicolon true]),
      jump .breakStatement "break", jump .continueStatement "continue",
      tree .debuggerStatement (Rule.both (word "debugger") plainEnd),
      importStatement rules, exportStatement rules, variableList rules,
      Rule.both functionStart (orExpression rules (functionDeclaration rules)),
      Rule.both (classStart rules) (orExpression rules (classDeclaration rules)),
      labeledStatement rules,
      Rule.barring (Rule.or functionStart (classStart rules)) (expressionStatement rules)]

end

end Baselines.Script
