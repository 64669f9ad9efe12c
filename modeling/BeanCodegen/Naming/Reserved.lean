/-! # Reserved Java names

Names a generated identifier must avoid: the Java keywords and literals, and the simple names
of the library classes that generated code uses without qualification. Members of a class also
avoid the methods every Java object has, and constants of an enum the members every Java enum
has.
-/

namespace BeanCodegen.Naming

/-- The Java keywords, contextual keywords and literals. -/
def javaKeywords : List String :=
  ["abstract", "assert", "boolean", "break", "byte", "case", "catch", "char", "class", "const",
   "continue", "default", "do", "double", "else", "enum", "extends", "final", "finally", "float",
   "for", "goto", "if", "implements", "import", "instanceof", "int", "interface", "long",
   "native", "new", "package", "private", "protected", "public", "return", "short", "static",
   "strictfp", "super", "switch", "synchronized", "this", "throw", "throws", "transient", "try",
   "void", "volatile", "while", "true", "false", "null", "var", "record", "yield", "sealed",
   "permits", "_"]

/-- The library classes generated code names by their simple names. -/
def builtinTypes : List String :=
  ["Object", "String", "Integer", "Long", "Float", "Double", "Boolean", "Byte", "Character",
   "Short", "Math", "System", "Class", "Enum", "Override", "Deprecated", "Exception",
   "Iterable", "List", "ArrayList", "Map", "HashMap", "Arrays", "ByteString",
   "InvalidProtocolBufferException"]

/-- The methods of every Java object. -/
def objectMethods : List String :=
  ["toString", "hashCode", "equals", "getClass", "clone", "finalize", "notify", "notifyAll",
   "wait"]

/-- The members of every Java enum, together with those generated enums add. -/
def enumMembers : List String :=
  ["number", "getNumber", "forNumber", "values", "valueOf", "ordinal", "name", "compareTo"]

/-- Whether a name is a keyword or a builtin class name. -/
def isReserved (name : String) : Bool :=
  javaKeywords.contains name || builtinTypes.contains name

end BeanCodegen.Naming
