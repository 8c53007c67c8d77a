import LoxKit.Editor.Server
import LoxKit.Main
import LoxKit.Editor.Host
import LoxKit.Text.Utf8
import LoxKit.Proofs.Editor.FirstLookup
import LoxKit.Proofs.Editor.Marks
import LoxKit.Proofs.Session.Contained
import LoxKit.Proofs.Session.Construction
import LoxKit.Proofs.Session.Conversation
import LoxKit.Proofs.Session.ExitCode
import LoxKit.Proofs.Session.Globals
import LoxKit.Proofs.Session.Heap
import LoxKit.Proofs.Session.Moment
import LoxKit.Proofs.Session.Joined
import LoxKit.Proofs.Session.Outcome
import LoxKit.Proofs.Session.Prompt
import LoxKit.Proofs.Session.Receiver
import LoxKit.Proofs.Session.Restored
import LoxKit.Proofs.Session.Renamed
import LoxKit.Proofs.Session.Scoping
import LoxKit.Proofs.Grammar.Derivation
import LoxKit.Proofs.Grammar.Rendering
import LoxKit.Proofs.Grammar.Recovery
import LoxKit.Proofs.Grammar.Ends
import LoxKit.Proofs.Grammar.Items
import LoxKit.Proofs.Grammar.Breaks
import LoxKit.Proofs.Grammar.Displayed
import LoxKit.Proofs.Lexical.ForLoop
import LoxKit.Proofs.Scope.Exact
import LoxKit.Proofs.Scope.Independent
import LoxKit.Proofs.Scan.Account
import LoxKit.Proofs.Scan.Respaced
import LoxKit.Proofs.Store.Access
