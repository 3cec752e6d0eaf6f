import Questionnaire.Builder
import Questionnaire.Expression.Build
import Questionnaire.Main
import Questionnaire.OptionState
import Questionnaire.Proofs.Answered
import Questionnaire.Proofs.Attributes
import Questionnaire.Proofs.Conversion
import Questionnaire.Proofs.Faults
import Questionnaire.Proofs.ForeignAnswers
import Questionnaire.Proofs.Lookahead
import Questionnaire.Proofs.Passes
import Questionnaire.Proofs.ResponseRoundTrip
import Questionnaire.Proofs.SchemaAgreement
import Questionnaire.Proofs.Submission
import Questionnaire.Proofs.WalkOrder
import Questionnaire.Proofs.WireForm
import Questionnaire.Proofs.Convertible
import Questionnaire.Proofs.Assembled
import Questionnaire.Proofs.Integers
import Questionnaire.Proofs.RecordValues
import Questionnaire.Proofs.Addresses
import Questionnaire.Proofs.Reporting
import Questionnaire.Proofs.Replacement
import Questionnaire.Proofs.Selection
import Questionnaire.Proofs.NormalForm
import Questionnaire.Proofs.CanonicalText
import Questionnaire.Proofs.Equality
import Questionnaire.Proofs.ValueOrder
import Questionnaire.Proofs.Connectives
import Questionnaire.Proofs.ClearedAnswers
import Questionnaire.Proofs.NumberTexts
import Questionnaire.Proofs.ExactSums
import Questionnaire.Proofs.CivilDates
import Questionnaire.Proofs.DateDifferences
import Questionnaire.Proofs.Sampling
import Questionnaire.Proofs.Presented
import Questionnaire.Proofs.DottedAccess
import Questionnaire.Proofs.Resolution
import Questionnaire.Proofs.Findings
import Questionnaire.Proofs.ComposedKeys
import Questionnaire.Proofs.ParticipantFlags
import Questionnaire.Proofs.AttributeUpdates
import Questionnaire.Proofs.CompletedMonths
import Questionnaire.Proofs.DefinitionOrder
