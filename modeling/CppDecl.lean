import CppDecl.Main
import CppDecl.Splice
import CppDecl.Summary
import CppDecl.Proofs.ArgumentPlaces
import CppDecl.Proofs.Blessing
import CppDecl.Proofs.Blocks
import CppDecl.Proofs.Complete
import CppDecl.Proofs.Cursor
import CppDecl.Proofs.Declarators
import CppDecl.Proofs.Delivery
import CppDecl.Proofs.Enclosed
import CppDecl.Proofs.Extent
import CppDecl.Proofs.Forwarding
import CppDecl.Proofs.Invocation
import CppDecl.Proofs.Isolation
import CppDecl.Proofs.LineStart
import CppDecl.Proofs.Locations
import CppDecl.Proofs.MacroTexts
import CppDecl.Proofs.Nesting
import CppDecl.Proofs.Order
import CppDecl.Proofs.Parenthesized
import CppDecl.Proofs.Parsing
import CppDecl.Proofs.Pasting
import CppDecl.Proofs.Plain
import CppDecl.Proofs.Printing
import CppDecl.Proofs.Ranges
import CppDecl.Proofs.RawLiteral
import CppDecl.Proofs.Reports
import CppDecl.Proofs.Shift
import CppDecl.Proofs.Skipping
import CppDecl.Proofs.Spacing
import CppDecl.Proofs.Spans
import CppDecl.Proofs.Speculation
import CppDecl.Proofs.Splice
import CppDecl.Proofs.Stringized
import CppDecl.Proofs.Undefining
import CppDecl.Proofs.UsePlaces
import CppDecl.Proofs.ReadAhead
