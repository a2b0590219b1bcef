import CharClass.Bracket
import CharClass.Floating.Decimal
import CharClass.Session
import CharClass.Proofs.CanonicalTokens
import CharClass.Proofs.Compactness
import CharClass.Proofs.Containers
import CharClass.Proofs.Copies
import CharClass.Proofs.Covers
import CharClass.Proofs.Decoding
import CharClass.Proofs.Denotation
import CharClass.Proofs.Determinacy
import CharClass.Proofs.Draining
import CharClass.Proofs.Faults
import CharClass.Proofs.Inversion
import CharClass.Proofs.Obstacle
import CharClass.Proofs.OnePass
import CharClass.Proofs.Reading
import CharClass.Proofs.Reordering
import CharClass.Proofs.Reports
import CharClass.Proofs.SetSyntax
import CharClass.Proofs.Strategies
import CharClass.Proofs.Tally
import CharClass.Proofs.Validity
