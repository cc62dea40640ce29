import CppDecl.Reader

/-!
# Macros of the framework

The sources of one framework mark their declarations with macros that mean nothing to the shape
of a declaration.  They are defined here as empty, so that the declarations can be read.  Only a
few of them stand for text of their own.
-/

namespace CppDecl.Builtins

/-- Marks without arguments. -/
def marks : List String :=
  ["PLY_INLINE", "PLY_NO_INLINE", "PLY_NO_DISCARD", "PLY_DLL_ENTRY", "PLY_BUILD_ENTRY",
   "PYLON_ENTRY", "PLY_THREAD_STARTCALL", "WINAPI", "APIENTRY"]

/-- Marks with arguments. -/
def marksWithArguments : List String :=
  ["PLY_STATE_REFLECT", "PLY_REFLECT", "PLY_REFLECT_ENUM", "PLY_IMPLEMENT_IFACE",
   "PLY_STRUCT_BEGIN", "PLY_STRUCT_BEGIN_PRIM", "PLY_STRUCT_BEGIN_PRIM_NO_IMPORT",
   "PLY_STRUCT_END", "PLY_STRUCT_END_PRIM", "PLY_STRUCT_MEMBER", "PLY_ENUM_BEGIN",
   "PLY_ENUM_IDENTIFIER", "PLY_ENUM_END", "PLY_STATE", "PLY_IFACE_METHOD", "IMP_FUNC",
   "SLOG_CHANNEL", "SLOG_NO_CHANNEL", "SLOG_DECLARE_CHANNEL", "GL_FUNC", "PLY_MAKE_LIMITS",
   "PLY_DECL_ALIGNED", "PLY_MAKE_WELL_FORMEDNESS_CHECK_1", "PLY_MAKE_WELL_FORMEDNESS_CHECK_2",
   "PLY_BIND_METHOD", "PLY_DECLARE_TYPE_DESCRIPTOR", "PLY_METHOD_TABLES_ONLY", "SWITCH_FOOTER",
   "SWITCH_ACCESSOR", "PLY_DEFINE_RACE_DETECTOR"]

/-- All of the framework's macros, in the order in which they are defined. -/
def definitions : List Predefined :=
  marks.map (fun name => ⟨name, "", false⟩) ++
  [⟨"PLY_STATIC_ASSERT", "static_assert", false⟩,
   ⟨"PLY_WORKSPACE_FOLDER", "\"\"", false⟩,
   ⟨"PLY_DEFINE_TYPE_DESCRIPTOR", "void foo", false⟩] ++
  marksWithArguments.map (fun name => ⟨name, "", true⟩) ++
  [⟨"PLY_TEST_CASE", "void foo()", true⟩]

end CppDecl.Builtins
