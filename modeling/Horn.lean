import Horn.Term
import Horn.Text.Invisible
import Horn.Text.Quoted
import Horn.Json
import Horn.Term.Display
import Horn.Term.Json
import Horn.Error
import Horn.Clause
import Horn.Event
import Horn.Session
import Horn.Database
import Horn.Subst
import Horn.Unify
import Horn.Search
import Horn.Solution
import Horn.Query
import Horn.Proofs.Acyclic
import Horn.Proofs.Satisfied
import Horn.Proofs.Unifying
import Horn.Proofs.UnifyDepth
import Horn.Proofs.MostGeneral
import Horn.Proofs.Copying
import Horn.Proofs.Running
import Horn.Proofs.Soundness
import Horn.Proofs.Variables
import Horn.Proofs.Completeness
import Horn.Proofs.Calls
import Horn.Proofs.Lockstep
import Horn.Proofs.Recursion
import Horn.Proofs.Conjunction
import Horn.Proofs.Interleaving
import Horn.Proofs.Chains
import Horn.Proofs.StandardizedApart
import Horn.Proofs.Relabeling
import Horn.Proofs.Independence
import Horn.Proofs.Sharing
import Horn.Proofs.Resolving
import Horn.Proofs.Environments
import Horn.Proofs.Patterns
import Horn.Proofs.Recasting
import Horn.Proofs.Exploring
import Horn.Proofs.Finishing
import Horn.Proofs.ClauseOrder
import Horn.Proofs.ClauseRemoval
import Horn.Proofs.Variants
import Horn.Proofs.Equations
import Horn.Proofs.ProofTrees
import Horn.Proofs.GoalOrder
import Horn.Proofs.Limits
import Horn.Proofs.Accounting
import Horn.Proofs.Hierarchy
import Horn.Proofs.Termination
import Horn.Proofs.Rebinding
import Horn.Proofs.NormalForms
import Horn.Proofs.Histories
import Horn.Proofs.Relevance
import Horn.Proofs.FreshVariants
import Horn.Proofs.Reporting
import Horn.Proofs.JsonText
import Horn.Proofs.Lossless
import Horn.Proofs.Quotes
import Horn.Proofs.PlainNames
import Horn.Proofs.Unambiguous
import Horn.Proofs.TryingOrder
import Horn.Proofs.Changes
