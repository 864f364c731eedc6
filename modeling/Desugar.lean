import Desugar.Main
import Desugar.Proofs.Acceptance
import Desugar.Proofs.Arrow
import Desugar.Proofs.Receiver
import Desugar.Proofs.Flattening
import Desugar.Proofs.Height
import Desugar.Proofs.Trimming
import Desugar.Proofs.Conservation
import Desugar.Proofs.Munch
import Desugar.Proofs.ShortLiterals
import Desugar.Proofs.Gaps
import Desugar.Proofs.Bracketing
import Desugar.Proofs.Respacing
import Desugar.Proofs.Pairs
import Desugar.Proofs.Sessions
import Desugar.Proofs.Incremental
import Desugar.Proofs.Locality
import Desugar.Proofs.Limits
import Desugar.Proofs.Respanning
import Desugar.Proofs.SugarFree
import Desugar.Proofs.Concatenation
import Desugar.Proofs.Kinds
import Desugar.Proofs.Locating
import Desugar.Proofs.Filtering
import Desugar.Proofs.Directories
import Desugar.Proofs.Jobs
import Desugar.Proofs.Staging
import Desugar.Proofs.Renaming
import Desugar.Proofs.Sources
import Desugar.Proofs.SourceFiles
import Desugar.Proofs.Builds
import Desugar.Proofs.Survival
import Desugar.Proofs.Layering
