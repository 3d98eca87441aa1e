import ScriptEngine.Inspect
import ScriptEngine.Program.Encode
import ScriptEngine.Proofs.Discipline
import ScriptEngine.Proofs.Recording
import ScriptEngine.Proofs.Session
import ScriptEngine.Service
import ScriptEngine.Word
import ScriptEngine.Proofs.Roots
import ScriptEngine.Proofs.Failure
import ScriptEngine.Proofs.Heap
import ScriptEngine.Proofs.Objects
import ScriptEngine.Proofs.Nesting
import ScriptEngine.Proofs.Documents
import ScriptEngine.Proofs.History
import ScriptEngine.Proofs.Numbering
import ScriptEngine.Proofs.Chronicle
import ScriptEngine.Proofs.Placement
import ScriptEngine.Proofs.Arity
import ScriptEngine.Proofs.Literals
import ScriptEngine.Proofs.Regimes
import ScriptEngine.Proofs.Replacement
import ScriptEngine.Proofs.Twins
import ScriptEngine.Proofs.Deferred
import ScriptEngine.Proofs.Declarations
import ScriptEngine.Proofs.Display
import ScriptEngine.Proofs.Tokens
import ScriptEngine.Proofs.Lookup
import ScriptEngine.Proofs.Words
import ScriptEngine.Proofs.Exchange
import ScriptEngine.Proofs.Recast
import ScriptEngine.Proofs.Splicing
import ScriptEngine.Proofs.DeadCode
import ScriptEngine.Proofs.Arithmetic
import ScriptEngine.Proofs.Renaming
import ScriptEngine.Proofs.Truncation
import ScriptEngine.Proofs.SpelledTokens
import ScriptEngine.Proofs.Spelling
import ScriptEngine.Proofs.Records
import ScriptEngine.Proofs.Forms
import ScriptEngine.Proofs.Normalising
import ScriptEngine.Proofs.Properties
import ScriptEngine.Proofs.Registry
import ScriptEngine.Proofs.Frames
