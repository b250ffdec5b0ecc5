import ScriptFront.Token.Primitive

/-!
# Kinds of nodes

A `NodeKind` says what a node of a tree is, for those who need no more than that.
-/

namespace ScriptFront

/-- What a node of a tree is. -/
inductive NodeKind where
  | codeUnit
  | includeDecl
  | includeItemDecl
  | namespaceDecl
  | classDecl
  | classFunctionDecl
  | classVariableDecl
  | classConstructorDecl
  | classDestructorDecl
  | classVariableInitDecl
  | interfaceDecl
  | interfaceFunctionDecl
  | structDecl
  | traitDecl
  | traitFunctionDecl
  | enumDecl
  | enumItemDecl
  | functionDecl
  | variableDecl
  | functionParameterDecl
  | genericDecl
  | genericItemDecl
  | scopedIdentifierDecl
  | block
  | ternaryExpr
  | binaryExpr
  | unaryExpr
  | asExpr
  | isExpr
  | matchExpr
  | functionDeclExpr
  | functionCallExpr
  | genericCallExpr
  | indexExpr
  | newExpr
  | constantBoolExpr
  | constantIntegerExpr
  | constantRealExpr
  | constantStringExpr
  | constantCharExpr
  | constantNullExpr
  | thisExpr
  | superExpr
  | primitiveTypeExpr
  | identifierExpr
  | arrayInitExpr
  | matchWhenExpr
  | functionParameterDeclExpr
  | newItemExpr
  | literalPattern
  | tuplePattern
  | structurePattern
  | enumerablePattern
  | structureItemPatternDecl
  | stmtIf
  | stmtIfLet
  | stmtFor
  | stmtWhile
  | stmtDoWhile
  | stmtMatch
  | stmtReturn
  | stmtContinue
  | stmtBreak
  | stmtGoto
  | stmtLabel
  | stmtTry
  | stmtPanic
  | stmtVariable
  | stmtExpr
  | stmtForInitDecl
  | stmtMatchWhenDecl
  | stmtCatchBlockDecl
  | primitive (type : PrimitiveType)
  | arrayType
  | functionType
  | namedType
  | selfType
  | tupleType
  | sizedArray
  | unsizedArray
deriving DecidableEq, Repr

namespace NodeKind

/-- The name of the kind in listings. -/
def name : NodeKind → String
  | .codeUnit => "CodeUnit"
  | .includeDecl => "IncludeDecl"
  | .includeItemDecl => "IncludeItemDecl"
  | .namespaceDecl => "NamespaceDecl"
  | .classDecl => "ClassDecl"
  | .classFunctionDecl => "ClassFunctionDecl"
  | .classVariableDecl => "ClassVariableDecl"
  | .classConstructorDecl => "ClassConstructorDecl"
  | .classDestructorDecl => "ClassDestructorDecl"
  | .classVariableInitDecl => "ClassVariableInitDecl"
  | .interfaceDecl => "InterfaceDecl"
  | .interfaceFunctionDecl => "InterfaceFunctionDecl"
  | .structDecl => "StructDecl"
  | .traitDecl => "TraitDecl"
  | .traitFunctionDecl => "TraitFunctionDecl"
  | .enumDecl => "EnumDecl"
  | .enumItemDecl => "EnumItemDecl"
  | .functionDecl => "FunctionDecl"
  | .variableDecl => "VariableDecl"
  | .functionParameterDecl => "FunctionParameterDecl"
  | .genericDecl => "GenericDecl"
  | .genericItemDecl => "GenericItemDecl"
  | .scopedIdentifierDecl => "ScopedIdentifierDecl"
  | .block => "Block"
  | .ternaryExpr => "TernaryExpr"
  | .binaryExpr => "BinaryExpr"
  | .unaryExpr => "UnaryExpr"
  | .asExpr => "AsExpr"
  | .isExpr => "IsExpr"
  | .matchExpr => "MatchExpr"
  | .functionDeclExpr => "FunctionDeclExpr"
  | .functionCallExpr => "FunctionCallExpr"
  | .genericCallExpr => "GenericCallExpr"
  | .indexExpr => "IndexExpr"
  | .newExpr => "NewExpr"
  | .constantBoolExpr => "ConstantBoolExpr"
  | .constantIntegerExpr => "ConstantIntegerExpr"
  | .constantRealExpr => "ConstantRealExpr"
  | .constantStringExpr => "ConstantStringExpr"
  | .constantCharExpr => "ConstantCharExpr"
  | .constantNullExpr => "ConstantNullExpr"
  | .thisExpr => "ThisExpr"
  | .superExpr => "SuperExpr"
  | .primitiveTypeExpr => "PrimitiveTypeExpr"
  | .identifierExpr => "IdentifierExpr"
  | .arrayInitExpr => "ArrayInitExpr"
  | .matchWhenExpr => "MatchWhenExpr"
  | .functionParameterDeclExpr => "FunctionParameterDeclExpr"
  | .newItemExpr => "NewItemExpr"
  | .literalPattern => "LiteralPattern"
  | .tuplePattern => "TuplePattern"
  | .structurePattern => "StructurePattern"
  | .enumerablePattern => "EnumerablePattern"
  | .structureItemPatternDecl => "StructureItemPatternDecl"
  | .stmtIf => "StmtIf"
  | .stmtIfLet => "StmtIfLet"
  | .stmtFor => "StmtFor"
  | .stmtWhile => "StmtWhile"
  | .stmtDoWhile => "StmtDoWhile"
  | .stmtMatch => "StmtMatch"
  | .stmtReturn => "StmtReturn"
  | .stmtContinue => "StmtContinue"
  | .stmtBreak => "StmtBreak"
  | .stmtGoto => "StmtGoto"
  | .stmtLabel => "StmtLabel"
  | .stmtTry => "StmtTry"
  | .stmtPanic => "StmtPanic"
  | .stmtVariable => "StmtVariable"
  | .stmtExpr => "StmtExpr"
  | .stmtForInitDecl => "StmtForInitDecl"
  | .stmtMatchWhenDecl => "StmtMatchWhenDecl"
  | .stmtCatchBlockDecl => "StmtCatchBlockDecl"
  | .primitive type => type.name ++ "Type"
  | .arrayType => "ArrayType"
  | .functionType => "FunctionType"
  | .namedType => "NamedType"
  | .selfType => "SelfType"
  | .tupleType => "TupleType"
  | .sizedArray => "SizedArray"
  | .unsizedArray => "UnsizedArray"

/-- Whether nodes of the kind are types. -/
def isType : NodeKind → Bool
  | .primitive _ | .arrayType | .functionType | .namedType | .selfType | .tupleType => true
  | _ => false

end NodeKind

end ScriptFront
