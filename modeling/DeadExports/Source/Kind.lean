set_option autoImplicit false

namespace DeadExports

inductive Kind where
  | program
  | comment
  | interpreterLine
  | emptyStatement
  | statement
  -- modules
  | importStatement
  | importClause
  | namespaceImport
  | namedImports
  | importSpecifier
  | importAlias
  | exportStatement
  | exportClause
  | exportSpecifier
  | namespaceExport
  -- words and marks
  | exportWord
  | defaultWord
  | importWord
  | star
  | comma
  -- names and literals
  | identifier
  | typeIdentifier
  | shorthandProperty
  | shorthandBinding
  | propertyIdentifier
  | nestedIdentifier
  | nestedTypeIdentifier
  | string
  | literal
  -- declarations
  | lexicalDeclaration
  | variableDeclaration
  | variableDeclarator
  | functionDeclaration
  | generatorDeclaration
  | functionSignature
  | functionExpression
  | generatorExpression
  | classDeclaration
  | abstractClass
  | classExpression
  | interfaceDeclaration
  | typeAlias
  | enumDeclaration
  | namespaceDeclaration
  | ambientDeclaration
  -- binding patterns
  | objectPattern
  | arrayPattern
  | assignmentPattern
  | shorthandAssignment
  | pairPattern
  | restPattern
  -- expressions
  | memberExpression
  | callExpression
  | arguments
  | group
deriving DecidableEq, Repr

namespace Kind

def isNamed : Kind → Bool
  | exportWord | defaultWord | star | comma => false
  | _ => true

def isName : Kind → Bool
  | identifier | typeIdentifier | shorthandProperty | shorthandBinding => true
  | _ => false

def isClosed : Kind → Bool
  | importStatement | exportClause | namespaceExport | string | comment => true
  | _ => false

end Kind

inductive Role where
  | name
  | newName
  | source
  | declaration
  | value
  | left
  | object
  | property
  | qualifier
  | callee
  | arguments
deriving DecidableEq, Repr

end DeadExports
