import PlaneFigures.Gallery
import PlaneFigures.Main
import PlaneFigures.Sampling.Sampler
import PlaneFigures.Proofs.CanonicalPrograms
import PlaneFigures.Proofs.Coextension
import PlaneFigures.Proofs.Decisive
import PlaneFigures.Proofs.Dispatch
import PlaneFigures.Proofs.Draws
import PlaneFigures.Proofs.Exactness
import PlaneFigures.Proofs.Incidence
import PlaneFigures.Proofs.KindChoice
import PlaneFigures.Proofs.Membership
import PlaneFigures.Proofs.Overflow
import PlaneFigures.Proofs.Padding
import PlaneFigures.Proofs.PreorderLog
import PlaneFigures.Proofs.Scoping
import PlaneFigures.Proofs.SelfIntersection
import PlaneFigures.Proofs.Translation
import PlaneFigures.Proofs.Unambiguous
