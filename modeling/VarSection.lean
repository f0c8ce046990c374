import VarSection.Main
import VarSection.Token.Scanner.Operation
import VarSection.Proofs.Analysis.Continuing
import VarSection.Proofs.Analysis.Declaring
import VarSection.Proofs.Analysis.Ending
import VarSection.Proofs.Analysis.LineStarts
import VarSection.Proofs.Analysis.Pointing
import VarSection.Proofs.Analysis.Ranges
import VarSection.Proofs.Analysis.Recording
import VarSection.Proofs.Analysis.Repeating
import VarSection.Proofs.Analysis.Restarting
import VarSection.Proofs.Analysis.Resuming
import VarSection.Proofs.Analysis.Skipping
import VarSection.Proofs.Analysis.Slices
import VarSection.Proofs.Analysis.Tracing
import VarSection.Proofs.Arranging
import VarSection.Proofs.Caseless
import VarSection.Proofs.Grammar.Blaming
import VarSection.Proofs.Grammar.Missing
import VarSection.Proofs.Grammar.Rendering
import VarSection.Proofs.Indenting
import VarSection.Proofs.Listing
import VarSection.Proofs.Scanner.Driving
import VarSection.Proofs.Scanner.LineFeeds
import VarSection.Proofs.Service.Classifying
import VarSection.Proofs.SymbolTable
