import Typeahead.Completion
import Typeahead.Main
import Typeahead.Proofs.Cursor.Cut
import Typeahead.Proofs.Parser.Account
import Typeahead.Proofs.Parser.Derivation
import Typeahead.Proofs.Parser.Progress
import Typeahead.Proofs.Parser.Transparency
import Typeahead.Server.Session
import Typeahead.Proofs.Token.Lexeme
import Typeahead.Proofs.Token.Place
import Typeahead.Proofs.Token.Boundary
import Typeahead.Proofs.Tree.Move
import Typeahead.Proofs.Parser.Move
import Typeahead.Proofs.Parser.Derived
import Typeahead.Proofs.SymbolTable.Scan
import Typeahead.Proofs.Import.Scan
import Typeahead.Proofs.Suggestion.Distinct
import Typeahead.Proofs.Completion.Imports
import Typeahead.Proofs.Completion.Warnings
import Typeahead.Proofs.Server.Position
import Typeahead.Proofs.Completion.Paths
import Typeahead.Proofs.Cursor.Offset
import Typeahead.Proofs.Server.Settings
import Typeahead.Proofs.Location.Decoding
import Typeahead.Proofs.Import.Outcome
import Typeahead.Proofs.Suggestion.Listing
import Typeahead.Proofs.Parser.Finishing
import Typeahead.Proofs.Filter.Narrowing
import Typeahead.Proofs.Parser.Provenance
import Typeahead.Proofs.Location.Errors
