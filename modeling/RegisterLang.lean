import RegisterLang.Json.Settings
import RegisterLang.Main
import RegisterLang.Workspace
import RegisterLang.Proofs.Rounds
import RegisterLang.Proofs.Auditing
import RegisterLang.Proofs.Initialization
import RegisterLang.Proofs.Constancy
import RegisterLang.Proofs.Frames
import RegisterLang.Proofs.History
import RegisterLang.Proofs.Independence
import RegisterLang.Proofs.Uniformity
import RegisterLang.Proofs.Acceptance
import RegisterLang.Proofs.Branching
import RegisterLang.Proofs.Spelling
import RegisterLang.Proofs.Recognition
import RegisterLang.Proofs.Naming
import RegisterLang.Proofs.Folding
import RegisterLang.Proofs.Returns
import RegisterLang.Proofs.Agreement
import RegisterLang.Proofs.Reports
import RegisterLang.Proofs.Nesting
