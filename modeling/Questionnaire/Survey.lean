import Questionnaire.Context.Assembly
import Questionnaire.Item.Assembly
import Questionnaire.Validation

/-! Surveys evaluated for one respondent. -/
namespace Questionnaire

/-- The keys of the visible questions, in one list and by pages, and the validation report. -/
structure SurveyEvaluation where
  visible : List String
  pages : List (List String)
  validation : Report
  deriving DecidableEq, Repr

namespace SurveyEvaluation

def toJson (e : SurveyEvaluation) : Json :=
  .object [("pages", .array (e.pages.map .ofTexts)), ("validation", e.validation.toJson),
    ("visible", .ofTexts e.visible)]

end SurveyEvaluation

namespace Survey

def evaluate (survey : Survey) (ctx : Context) (seeder : Seeder) :
    Except Error SurveyEvaluation := do
  let visible ← survey.root.flatten ctx seeder
  let pages ← survey.root.pages ctx seeder
  let validation ← survey.root.validateVisible ctx seeder
  return ⟨visible.map Item.key, pages.map (·.map Item.key), validation⟩

/-- Evaluate a survey document for a response document. A seed fixes the items that groups select;
without one they depend on the participant. -/
def evaluateJson (survey responses : Json) (seed : Option UInt64) (now : Int64) :
    Except Error SurveyEvaluation := do
  let survey ← Survey.ofJson survey
  let ctx ← Context.ofJson responses now
  survey.evaluate ctx (.ofOption seed)

end Survey

end Questionnaire
