import ExpenseTracker.L1Encoding.Jwt
import ExpenseTracker.L2Store.SqlText
import ExpenseTracker.L4Service.Login
import ExpenseTracker.L4Service.Refinement
import ExpenseTracker.L4Service.Workers
import ExpenseTracker.L5Pages.Labels
import ExpenseTracker.L4Service.Integers
import ExpenseTracker.L4Service.Categorised
import ExpenseTracker.Core.Ddl
import ExpenseTracker.L2Store.Migration
import ExpenseTracker.L4Service.Registration
import ExpenseTracker.Core.JsonText
import ExpenseTracker.L1Encoding.Claims
import ExpenseTracker.Core.AsyncClient
import ExpenseTracker.L5Pages.Dashboard
import ExpenseTracker.L5Pages.Deletion
import ExpenseTracker.L5Pages.Convergence
import ExpenseTracker.L5Pages.Transactions
import ExpenseTracker.L5Pages.Batch
import ExpenseTracker.Core.Calendar
import ExpenseTracker.Core.JsDate
import ExpenseTracker.Core.Tally
import ExpenseTracker.L5Pages.Charts
import ExpenseTracker.L5Pages.Months
import ExpenseTracker.L5Pages.Goals
import ExpenseTracker.Core.JsNumber
import ExpenseTracker.L5Pages.Budgets
import ExpenseTracker.L5Pages.Progress
import ExpenseTracker.L5Pages.Reported
import ExpenseTracker.L5Pages.Header
import ExpenseTracker.Core.JsonSyntax
import ExpenseTracker.L3Server.CrowLoad
import ExpenseTracker.Core.JsonTree
import ExpenseTracker.L3Server.CrowNumber
import ExpenseTracker.L3Server.CrowValue
import ExpenseTracker.L3Server.CrowRead
import ExpenseTracker.Core.Decimal
import ExpenseTracker.Core.DecimalDouble
import ExpenseTracker.Core.JsonWrite
import ExpenseTracker.L3Server.CrowDump
import ExpenseTracker.L3Server.Answers
import ExpenseTracker.L4Service.Wire
import ExpenseTracker.Core.Evolve
import ExpenseTracker.L3Server.Program
import ExpenseTracker.L2Store.Integrity
import ExpenseTracker.L4Service.History
import ExpenseTracker.Core.Summation
import ExpenseTracker.L5Pages.Totals
import ExpenseTracker.L5Pages.Parsed
