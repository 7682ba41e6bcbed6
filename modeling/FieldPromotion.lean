import FieldPromotion.Tree.Encode
import FieldPromotion.Tree.Decode
import FieldPromotion.Tree.Print
import FieldPromotion.Tree.Build
import FieldPromotion.Tree.Visit
import FieldPromotion.Options
import FieldPromotion.Event
import FieldPromotion.Promotion.Role
import FieldPromotion.Promotion.Placement
import FieldPromotion.Promotion.Module
import FieldPromotion.SourceUnit
import FieldPromotion.Files
import FieldPromotion.Main
import FieldPromotion.Proofs.ContextCheck
import FieldPromotion.Proofs.Ancestry
import FieldPromotion.Proofs.Marking
import FieldPromotion.Proofs.Hierarchy
import FieldPromotion.Proofs.Registration
import FieldPromotion.Proofs.InheritanceOrder
import FieldPromotion.Proofs.ClassPromotion
import FieldPromotion.Proofs.Parameters
import FieldPromotion.Proofs.Outcome
import FieldPromotion.Proofs.Steps
import FieldPromotion.Proofs.Run
import FieldPromotion.Proofs.Success
import FieldPromotion.Proofs.Idempotence
import FieldPromotion.Proofs.FieldNames
import FieldPromotion.Proofs.Placement
import FieldPromotion.Proofs.Tables
import FieldPromotion.Proofs.Reordering
import FieldPromotion.Proofs.HostView
import FieldPromotion.Proofs.Locality
import FieldPromotion.Proofs.ForeignClasses
import FieldPromotion.Proofs.ForeignPositions
import FieldPromotion.Proofs.Numerals
import FieldPromotion.Proofs.JsonText
import FieldPromotion.Proofs.JsonDecoding
import FieldPromotion.Proofs.TreeReading
import FieldPromotion.Proofs.JsonDepth
import FieldPromotion.Proofs.TreeDepth
import FieldPromotion.Proofs.Feedback
import FieldPromotion.Proofs.TableRecords
import FieldPromotion.Proofs.FieldsInSight
import FieldPromotion.Proofs.CycleReports
import FieldPromotion.Proofs.HandWritten
import FieldPromotion.Proofs.Reports
import FieldPromotion.Proofs.OptionEffects
import FieldPromotion.Proofs.SpanReset
import FieldPromotion.Proofs.Tokens
import FieldPromotion.Proofs.ExprReading
import FieldPromotion.Proofs.ControlLines
import FieldPromotion.Proofs.ControlReading
import FieldPromotion.Proofs.Classification
import FieldPromotion.Proofs.Clashes
import FieldPromotion.Proofs.Labels
import FieldPromotion.Proofs.Collisions
import FieldPromotion.Proofs.FieldInsertion
import FieldPromotion.Proofs.Identifiers
import FieldPromotion.Proofs.StringLiterals
import FieldPromotion.Proofs.SingleLines
import FieldPromotion.Proofs.Printer
import FieldPromotion.Proofs.Layout
